import Grove.Proofs.Outcome
import Grove.Proofs.Resource.Forest
import Grove.Service

/-!
# What a service makes when it is asked

Asking a service for a steward may make many things: the stores of the resource and of
its parent, and the stewards of everything below. Whatever is made on the way is made in
single steps, and there are three of them (`Service.Step`): a store is made, making it
fails, or a steward is put together from what is kept already. Every step leaves what is
kept as it is and makes only what is missing. What a whole call comes to is a number of
such steps (`Service.Comes`), the last of them the failure if the call fails.

A steward is kept only when everything below it is there, so while that is being made the
steward itself is missing. It is not made a second time on the way, because the resources
below it have a larger rank (`stewardAt_comes`); and the bound on the depth of the calls is
never reached, because no way down is longer than the tree (`stewardAt_levels`).
-/

namespace Grove

variable {σ ρ α β : Type}

namespace Forest

/-- The resource itself and what is below it, at any depth. -/
inductive Under (t : Forest) (top : String) : String → Prop
  | self : Under t top top
  | child {r : Resource} {parent : String} (h : Under t top parent)
      (known : t.get? r.name = some r) (below : r.parent = some parent) : Under t top r.name

theorem Under.above {t : Forest} {child other : String} (h : t.Under child other) {r : Resource}
    (known : t.get? r.name = some r) {top : String} (below : r.parent = some top)
    (hname : r.name = child) : t.Under top other := by
  induction h with
  | self => exact hname ▸ .child .self known below
  | child _ hknown hbelow ih => exact .child ih hknown hbelow

theorem Under.rank_le {t : Forest} {rank : String → Nat} (hrank : t.Ranks rank)
    {top other : String} (h : t.Under top other) : rank top ≤ rank other := by
  induction h with
  | self => exact Nat.le_refl _
  | child _ hknown hbelow ih =>
      exact Nat.le_trans ih (Nat.le_of_lt (hrank _ (mem_of_get? hknown).1 _ hbelow))

end Forest

namespace Service

inductive Work (ρ : Type) where
  | refused (name : String) (e : Failure)
  | made (name : String) (store : ρ)
  | joined (name : String) (m : Steward ρ)

/-- The steward is made of the stores and stewards that are kept for its resource, its
parent and its children. -/
structure Joint (s : Service σ ρ) (name : String) (m : Steward ρ) : Prop where
  placed : s.tree.get? name = some m.resource
  own : s.stores.lookup name = some m.store
  root : m.resource.parent = none → m.parent = none
  above : ∀ parent, m.resource.parent = some parent → ∃ store,
    s.stores.lookup parent = some store ∧
      m.parent = some ⟨parent, m.resource.fieldOf (Resource.keyParam parent), store⟩
  /-- The children are all that the resource has, in the order of the configuration. -/
  children : m.children.map (·.2.resource) = s.tree.resources.filter (·.parent == some name)
  below : ∀ below ∈ m.children,
    below.1 = ⟨below.2.resource.name, below.2.resource.fieldOf (Resource.keyParam name),
      below.2.resource.cascadeDelete⟩ ∧
    s.stewards.lookup below.2.resource.name = some below.2

inductive Step (b : Backend σ ρ) : Work ρ → Service σ ρ → Service σ ρ → Prop
  | refused {s : Service σ ρ} {r : Resource} {e : Failure} {state : σ}
      (known : s.tree.get? r.name = some r) (missing : s.stores.lookup r.name = none)
      (came : (b.create r).outcome s.state = (.error e, state)) :
      Step b (.refused r.name e) s { s with state }
  | made {s : Service σ ρ} {r : Resource} {store : ρ} {state : σ}
      (known : s.tree.get? r.name = some r) (missing : s.stores.lookup r.name = none)
      (came : (b.create r).outcome s.state = (.ok store, state)) :
      Step b (.made r.name store) s { s with state, stores := (r.name, store) :: s.stores }
  | joined {s : Service σ ρ} {name : String} {m : Steward ρ}
      (missing : s.stewards.lookup name = none) (joint : s.Joint name m) :
      Step b (.joined name m) s { s with stewards := (name, m) :: s.stewards }

/-- Any number of steps that are admitted. -/
inductive Steps (b : Backend σ ρ) (may : Work ρ → Prop) (s : Service σ ρ) : Service σ ρ → Prop
  | start : Steps b may s s
  | next {w : Work ρ} {u v : Service σ ρ} (earlier : Steps b may s u) (admitted : may w)
      (step : Step b w u v) : Steps b may s v

/-- What comes of asking a service for something: either it gets there in steps, or after
some steps a store could not be made. -/
inductive Comes (b : Backend σ ρ) (may : Work ρ → Prop) (s : Service σ ρ)
    (done : α → Service σ ρ → Prop) (halted : Service σ ρ → Prop) :
    Except Failure α × Service σ ρ → Prop
  | done {a : α} {u : Service σ ρ} (work : Steps b may s u) (got : done a u) :
      Comes b may s done halted (.ok a, u)
  | halted {name : String} {e : Failure} {u v : Service σ ρ} (work : Steps b may s u)
      (admitted : may (.refused name e)) (last : Step b (.refused name e) u v)
      (left : halted v) : Comes b may s done halted (.error e, v)

structure Grown (s u : Service σ ρ) : Prop where
  tree : u.tree = s.tree
  store : ∀ name store, s.stores.lookup name = some store → u.stores.lookup name = some store
  steward : ∀ name m, s.stewards.lookup name = some m → u.stewards.lookup name = some m

/-- What a call for a steward may make: the stores of the resource, of its parent and of
what is below, and the stewards of the resource and of what is below. -/
def Family (t : Forest) (name : String) : Work ρ → Prop
  | .refused other _ | .made other _ =>
    t.Under name other ∨ ∃ r, t.get? name = some r ∧ r.parent = some other
  | .joined other _ => t.Under name other

/-- What is still missing of a steward, where everything before it is there: a store, or the
first child whose own steward is missing something. -/
inductive Lacks (s : Service σ ρ) : Resource → Prop
  | own {r : Resource} (missing : s.stores.lookup r.name = none) : Lacks s r
  | parent {r : Resource} {parent : String} (h : r.parent = some parent)
      (missing : s.stores.lookup parent = none) : Lacks s r
  | child {r child : Resource} {earlier later : List String}
      (h : r.children = earlier ++ child.name :: later)
      (kept : ∀ name ∈ earlier, ∃ m, s.stewards.lookup name = some m)
      (missing : s.stewards.lookup child.name = none) (lacks : Lacks s child) : Lacks s r

variable {b : Backend σ ρ} {may : Work ρ → Prop} {s u v : Service σ ρ} {t : Forest} {w : Work ρ}
  {name : String}

/-! ## Steps -/

theorem Grown.refl (s : Service σ ρ) : Grown s s := ⟨rfl, fun _ _ h => h, fun _ _ h => h⟩

theorem Grown.trans (h : Grown s u) (h' : Grown u v) : Grown s v :=
  ⟨h'.tree.trans h.tree, fun name store hs => h'.store name store (h.store name store hs),
    fun name m hs => h'.steward name m (h.steward name m hs)⟩

theorem Joint.grown {m : Steward ρ} (hm : s.Joint name m) (h : Grown s u) : u.Joint name m where
  placed := by rw [h.tree]; exact hm.placed
  own := h.store _ _ hm.own
  root := hm.root
  above parent hparent := by
    obtain ⟨store, hstore, hlink⟩ := hm.above parent hparent
    exact ⟨store, h.store _ _ hstore, hlink⟩
  children := by rw [h.tree]; exact hm.children
  below below hbelow := ⟨(hm.below below hbelow).1, h.steward _ _ (hm.below below hbelow).2⟩

theorem lookup_cons_of_missing {entries : List (String × α)} {new : α}
    (missing : entries.lookup name = none) {other : String} {a : α}
    (h : entries.lookup other = some a) : ((name, new) :: entries).lookup other = some a := by
  have hne : other ≠ name := by
    rintro rfl
    rw [missing] at h
    cases h
  rw [List.lookup_cons, beq_false_of_ne hne]
  exact h

theorem Step.grown (h : Step b w s u) : Grown s u := by
  cases h with
  | refused known missing came => exact ⟨rfl, fun _ _ h => h, fun _ _ h => h⟩
  | made known missing came =>
      exact ⟨rfl, fun _ _ => lookup_cons_of_missing missing, fun _ _ h => h⟩
  | joined missing joint =>
      exact ⟨rfl, fun _ _ h => h, fun _ _ => lookup_cons_of_missing missing⟩

theorem Steps.grown (h : Steps b may s u) : Grown s u := by
  induction h with
  | start => exact .refl s
  | next _ _ step ih => exact ih.trans step.grown

theorem Steps.mono {may' : Work ρ → Prop} (hmay : ∀ w, may w → may' w) (h : Steps b may s u) :
    Steps b may' s u := by
  induction h with
  | start => exact .start
  | next _ admitted step ih => exact .next ih (hmay _ admitted) step

theorem Steps.trans (h : Steps b may s u) (h' : Steps b may u v) : Steps b may s v := by
  induction h' with
  | start => exact h
  | next _ admitted step ih => exact .next ih admitted step

/-- A steward that may not be made is still missing. -/
theorem Steps.missing (h : Steps b may s u) (hmay : ∀ m, ¬ may (.joined name m))
    (missing : s.stewards.lookup name = none) : u.stewards.lookup name = none := by
  induction h with
  | start => exact missing
  | next _ admitted step ih =>
      cases step with
      | refused => exact ih
      | made => exact ih
      | @joined _ other m =>
          have hne : name ≠ other := by
            rintro rfl
            exact hmay m admitted
          rw [List.lookup_cons, beq_false_of_ne hne]
          exact ih

/-- The tree is the service's, stores are kept for its resources, and the stewards that are
kept are made of what is kept. -/
structure Orderly (t : Forest) (s : Service σ ρ) : Prop where
  tree : s.tree = t
  known : ∀ name store, s.stores.lookup name = some store → ∃ r, t.get? name = some r
  joint : ∀ name m, s.stewards.lookup name = some m → s.Joint name m

theorem Step.orderly (h : Step b w s u) (hs : Orderly t s) : Orderly t u := by
  have hjoint : ∀ name m, s.stewards.lookup name = some m → u.Joint name m :=
    fun name m hm => (hs.joint name m hm).grown h.grown
  cases h with
  | refused known missing came => exact ⟨hs.tree, hs.known, hjoint⟩
  | @made _ r store state known missing came =>
      refine ⟨hs.tree, fun name made hmade => ?_, hjoint⟩
      rw [List.lookup_cons] at hmade
      split at hmade
      · next heq => exact ⟨r, eq_of_beq heq ▸ hs.tree ▸ known⟩
      · exact hs.known name made hmade
  | joined missing joint =>
      refine ⟨hs.tree, hs.known, fun name m hm => ?_⟩
      rw [List.lookup_cons] at hm
      split at hm
      · next heq =>
          cases hm
          exact eq_of_beq heq ▸ joint.grown (Step.joined (b := b) missing joint).grown
      · exact hjoint name m hm

theorem Steps.orderly (h : Steps b may s u) (hs : Orderly t s) : Orderly t u := by
  induction h with
  | start => exact hs
  | next _ _ step ih => exact step.orderly ih

/-! ## Calls in steps -/

variable {done : α → Service σ ρ → Prop} {halted : Service σ ρ → Prop}

theorem Comes.mono {o : Except Failure α × Service σ ρ} {may' : Work ρ → Prop}
    {done' : α → Service σ ρ → Prop} {halted' : Service σ ρ → Prop}
    (h : Comes b may s done halted o) (hmay : ∀ w, may w → may' w)
    (hdone : ∀ a u, done a u → done' a u) (hhalted : ∀ v, halted v → halted' v) :
    Comes b may' s done' halted' o := by
  cases h with
  | done work got => exact .done (work.mono hmay) (hdone _ _ got)
  | halted work admitted last left =>
      exact .halted (work.mono hmay) (hmay _ admitted) last (hhalted _ left)

theorem Comes.steps {o : Except Failure α × Service σ ρ} (h : Comes b may s done halted o) :
    Steps b may s o.2 := by
  cases h with
  | done work got => exact work
  | halted work admitted last left => exact .next work admitted last

theorem Comes.keep {o : Except Failure α × Service σ ρ} (h : Comes b may s done halted o) :
    Comes b may s (fun a u => done a u ∧ Grown s u) (fun v => halted v ∧ Grown s v) o := by
  cases h with
  | done work got => exact .done work ⟨got, work.grown⟩
  | halted work admitted last left =>
      exact .halted work admitted last ⟨left, work.grown.trans last.grown⟩

/-- What does not make a steward of the name leaves it missing. -/
theorem Comes.unjoined {o : Except Failure α × Service σ ρ}
    (h : Comes b (fun w => may w ∧ ∀ m, w ≠ .joined name m) s done halted o)
    (missing : s.stewards.lookup name = none) :
    Comes b may s (fun a u => done a u ∧ Grown s u ∧ u.stewards.lookup name = none)
      (fun v => halted v ∧ v.stewards.lookup name = none) o := by
  have hmissing : ∀ u, Steps b (fun w => may w ∧ ∀ m, w ≠ .joined name m) s u →
      u.stewards.lookup name = none :=
    fun u work => work.missing (fun m h => h.2 m rfl) missing
  cases h with
  | done work got =>
      exact .done (work.mono fun _ h => h.1) ⟨got, work.grown, hmissing _ work⟩
  | halted work admitted last left =>
      exact .halted (work.mono fun _ h => h.1) admitted.1 last
        ⟨left, hmissing _ (.next work admitted last)⟩

theorem Comes.bind {x : Attempt (Service σ ρ) α} {next : α → Attempt (Service σ ρ) β}
    {done' : β → Service σ ρ → Prop} {halted' : Service σ ρ → Prop}
    (hx : Comes b may s done halted (x.outcome s))
    (hnext : ∀ a u, Steps b may s u → done a u → Comes b may u done' halted' ((next a).outcome u))
    (hhalted : ∀ v, halted v → halted' v) :
    Comes b may s done' halted' ((x >>= next).outcome s) := by
  rw [Attempt.outcome_bind]
  generalize x.outcome s = o at hx
  cases hx with
  | done work got =>
      have hthen := hnext _ _ work got
      simp only
      generalize (next _).outcome _ = o at hthen ⊢
      cases hthen with
      | done work' got' => exact .done (work.trans work') got'
      | halted work' admitted last left => exact .halted (work.trans work') admitted last left
  | halted work admitted last left => exact .halted work admitted last (hhalted _ left)

theorem outcome_resource_bind {r : Resource} (known : s.tree.get? name = some r)
    (next : Resource → Attempt (Service σ ρ) α) :
    (resource name >>= next).outcome s = (next r).outcome s := by
  rw [resource, Attempt.outcome_bind, Attempt.outcome_get_bind, known]
  rfl

theorem outcome_resource_bind_of_unknown (unknown : s.tree.get? name = none)
    (next : Resource → Attempt (Service σ ρ) α) :
    (resource name >>= next).outcome s = (.error (.unknownResource name), s) := by
  rw [resource, Attempt.outcome_bind, Attempt.outcome_get_bind, unknown]
  rfl

theorem outcome_store_of_kept {r : Resource} (known : s.tree.get? name = some r) {store : ρ}
    (hkept : s.stores.lookup name = some store) :
    (Service.store b name).outcome s = (.ok store, s) := by
  rw [Service.store, outcome_resource_bind known, Attempt.outcome_get_bind, hkept]
  rfl

theorem store_comes {r : Resource} (known : s.tree.get? name = some r)
    (hrefused : ∀ e, may (.refused name e)) (hmade : ∀ store, may (.made name store)) :
    Comes b may s (fun store u => u.stores.lookup name = some store)
      (fun v => v.stores.lookup name = none) ((Service.store b name).outcome s) := by
  cases hkept : s.stores.lookup name with
  | some store =>
      rw [outcome_store_of_kept known hkept]
      exact .done .start hkept
  | none =>
      obtain ⟨-, rfl⟩ := Forest.mem_of_get? known
      rw [Service.store, outcome_resource_bind known, Attempt.outcome_get_bind, hkept]
      simp only [onBackend, Attempt.outcome_bind, Attempt.outcome_within]
      rcases hcame : (b.create r).outcome s.state with ⟨e | store, state⟩
      · exact .halted .start (hrefused e) (.refused known hkept hcame) hkept
      · refine .done (.next .start (hmade store) (.made known hkept hcame)) ?_
        exact List.lookup_cons_self

theorem parentRef_comes {r : Resource} (known : ∀ parent, r.parent = some parent →
    ∃ above, s.tree.get? parent = some above)
    (hmay : ∀ parent, r.parent = some parent →
      (∀ e, may (.refused parent e)) ∧ ∀ store, may (.made parent store)) :
    Comes b may s
      (fun link u => (r.parent = none → link = none) ∧ ∀ parent, r.parent = some parent →
        ∃ store, u.stores.lookup parent = some store ∧
          link = some ⟨parent, r.fieldOf (Resource.keyParam parent), store⟩)
      (fun v => ∃ parent, r.parent = some parent ∧ v.stores.lookup parent = none)
      ((parentRef b r).outcome s) := by
  rw [parentRef, Resource.ownerField]
  cases hparent : r.parent with
  | none => exact .done .start ⟨fun _ => rfl, nofun⟩
  | some parent =>
      obtain ⟨above, habove⟩ := known parent hparent
      obtain ⟨hrefused, hmade⟩ := hmay parent hparent
      refine Comes.bind (store_comes habove hrefused hmade) (fun store u _ hstore => ?_)
        fun v missing => ⟨parent, rfl, missing⟩
      refine .done .start ⟨nofun, ?_⟩
      rintro _ ⟨⟩
      exact ⟨store, hstore, rfl⟩

/-- What each of several calls gets is still there at the end. If one of them fails, what
those before it got is there. -/
theorem mapM_comes {f : String → Attempt (Service σ ρ) β} {key : β → String}
    {got : β → Service σ ρ → Prop} {lacks : String → Service σ ρ → Prop} {names : List String}
    (hf : ∀ name ∈ names, ∀ u, Orderly t u →
      Comes b may u (fun a v => key a = name ∧ got a v) (lacks name) ((f name).outcome u))
    (hgrown : ∀ a u v, Grown u v → got a u → got a v) (hs : Orderly t s) :
    Comes b may s (fun as u => as.map key = names ∧ ∀ a ∈ as, got a u)
      (fun v => ∃ earlier name later, names = earlier ++ name :: later ∧
        (∀ other ∈ earlier, ∃ a, key a = other ∧ got a v) ∧ lacks name v)
      ((names.mapM f).outcome s) := by
  induction names generalizing s with
  | nil => exact .done .start ⟨rfl, nofun⟩
  | cons name names ih =>
      rw [List.forall_mem_cons] at hf
      rw [List.mapM_cons]
      refine (hf.1 s hs).bind (fun a u work ⟨hkey, ha⟩ => ?_)
        fun v hlacks => ⟨[], name, names, rfl, nofun, hlacks⟩
      refine (ih hf.2 (work.orderly hs)).keep.bind (fun as v _ ⟨⟨hkeys, has⟩, hv⟩ => ?_) ?_
      · refine .done .start ⟨by rw [List.map_cons, hkey, hkeys], ?_⟩
        exact List.forall_mem_cons.mpr ⟨hgrown a u v hv ha, has⟩
      · rintro v ⟨⟨earlier, other, later, rfl, hearlier, hlacks⟩, hv⟩
        refine ⟨name :: earlier, other, later, rfl, ?_, hlacks⟩
        exact List.forall_mem_cons.mpr ⟨⟨a, hkey, hgrown a u v hv ha⟩, hearlier⟩

theorem family_of_child {rank : String → Nat} (hrank : t.Ranks rank) {child : Resource}
    (known : t.get? child.name = some child) (below : child.parent = some name)
    (h : Family t child.name w) : Family t name w ∧ ∀ m, w ≠ .joined name m := by
  have hunder : ∀ other, t.Under child.name other → t.Under name other :=
    fun other h => h.above known below rfl
  cases w with
  | refused other e | made other store =>
      refine ⟨h.elim (fun h => .inl (hunder other h)) ?_, nofun⟩
      rintro ⟨r, hr, hparent⟩
      rw [known] at hr
      cases hr
      rw [below] at hparent
      cases hparent
      exact .inl .self
  | joined other m =>
      refine ⟨hunder other h, fun m' heq => ?_⟩
      cases heq
      have hlower := hrank child (Forest.mem_of_get? known).1 name below
      exact absurd (Forest.Under.rank_le hrank h) (Nat.not_le_of_lt hlower)

/-- Where the names of the children are those that the tree lists, so are the children. -/
theorem children_eq {as : List β} {resource : β → Resource} (ht : t.Linked) {r : Resource}
    (hr : r ∈ t.resources) (hnames : as.map (fun a => (resource a).name) = r.children)
    (hplaced : ∀ a ∈ as, t.get? (resource a).name = some (resource a)) :
    as.map resource = t.resources.filter (·.parent == some r.name) := by
  have hfound : ∀ rs : List Resource, (∀ r ∈ rs, t.get? r.name = some r) →
      (rs.map (·.name)).map t.get? = rs.map some := fun rs h => by
    rw [List.map_map]
    exact List.map_congr_left h
  apply (List.map_inj_right fun _ _ => Option.some.inj).mp
  rw [← hfound, ← hfound, ← ht.children r hr, ← hnames, List.map_map (l := as)]
  · rfl
  · exact fun r hr => Forest.get?_of_mem ht.sound (List.mem_filter.mp hr).1
  · exact List.forall_mem_map.mpr hplaced

/-- What a steward has of a child: the link that the tree describes, and the steward that is
kept for it. -/
def HasChild (r : Resource) (below : ChildRef × Steward ρ) (s : Service σ ρ) : Prop :=
  s.tree.get? below.2.resource.name = some below.2.resource ∧
    below.1 = childRef r below.2.resource ∧
    s.stewards.lookup below.2.resource.name = some below.2

theorem HasChild.grown {r : Resource} {below : ChildRef × Steward ρ} (h : HasChild r below s)
    (hs : Grown s u) : HasChild r below u :=
  ⟨by rw [hs.tree]; exact h.1, h.2.1, hs.steward _ _ h.2.2⟩

theorem childRef_of_child {r child : Resource} (h : child.parent = some r.name) :
    childRef r child =
      ⟨child.name, child.fieldOf (Resource.keyParam r.name), child.cascadeDelete⟩ := by
  rw [childRef, Resource.ownerField, h]
  rfl

theorem child_comes {rank : String → Nat} (hrank : t.Ranks rank) {r child : Resource}
    (known : t.get? child.name = some child) (below : child.parent = some r.name)
    {call : Attempt (Service σ ρ) (Steward ρ)} {halted : Service σ ρ → Prop} (hs : Orderly t s)
    (hcall : Comes b (Family t child.name) s
      (fun m u => u.stewards.lookup child.name = some m) halted (call.outcome s)) :
    Comes b (fun w => Family t r.name w ∧ ∀ m, w ≠ .joined r.name m) s
      (fun below u => below.2.resource.name = child.name ∧ HasChild r below u) halted
      ((do
        let child ← resource child.name
        return (childRef r child, ← call)).outcome s) := by
  rw [outcome_resource_bind (hs.tree ▸ known)]
  have hfamily := hcall.mono (fun w => family_of_child hrank known below) (fun _ _ h => h)
    fun _ h => h
  refine hfamily.bind (fun m u work hm => .done .start ?_) fun _ h => h
  have hu := work.orderly hs
  have hplaced := (hu.joint child.name m hm).placed
  have hsame : m.resource = child := by
    rw [hu.tree, known] at hplaced
    exact (Option.some.inj hplaced).symm
  subst hsame
  exact ⟨rfl, hplaced, rfl, hm⟩

theorem join_comes (ht : t.Linked) {r : Resource} (known : t.get? r.name = some r)
    {own : ρ} {link : Option (ParentRef ρ)} {children : List (ChildRef × Steward ρ)}
    (hs : Orderly t s) (missing : s.stewards.lookup r.name = none)
    (hown : s.stores.lookup r.name = some own)
    (hroot : r.parent = none → link = none)
    (habove : ∀ parent, r.parent = some parent → ∃ store,
      s.stores.lookup parent = some store ∧
        link = some ⟨parent, r.fieldOf (Resource.keyParam parent), store⟩)
    (hnames : children.map (·.2.resource.name) = r.children)
    (hbelow : ∀ below ∈ children, HasChild r below s) {halted : Service σ ρ → Prop} :
    Comes b (Family t r.name) s (fun m u => u.stewards.lookup r.name = some m) halted
      (.ok (.mk r own link children),
        { s with stewards := (r.name, .mk r own link children) :: s.stewards }) := by
  have hr := (Forest.mem_of_get? known).1
  have hlist := children_eq ht hr hnames fun below h => hs.tree ▸ (hbelow below h).1
  have hmay : Family t r.name (.joined r.name (.mk r own link children)) := Forest.Under.self
  refine .done (.next .start hmay (.joined missing ?_)) List.lookup_cons_self
  refine ⟨hs.tree ▸ known, hown, hroot, habove, hs.tree ▸ hlist, fun below h => ?_⟩
  obtain ⟨hplaced, hlink, hkept⟩ := hbelow below h
  have hmem : below.2.resource ∈ t.resources.filter (·.parent == some r.name) :=
    hlist ▸ List.mem_map_of_mem h
  have hparent := eq_of_beq (List.mem_filter.mp hmem).2
  exact ⟨hlink.trans (childRef_of_child hparent), hkept⟩

theorem stewardAt_comes (ht : t.Linked) {rank : String → Nat} (hrank : t.Ranks rank)
    (hsize : ∀ r ∈ t.resources, rank r.name ≤ t.size) {levels : Nat} {r : Resource}
    (known : t.get? name = some r) (hlevels : t.size < levels + rank name) (hs : Orderly t s) :
    Comes b (Family t name) s (fun m u => u.stewards.lookup name = some m)
      (fun v => v.Lacks r ∧ v.stewards.lookup name = none)
      ((stewardAt b levels name).outcome s) := by
  induction levels generalizing name r s with
  | zero =>
      obtain ⟨hr, rfl⟩ := Forest.mem_of_get? known
      have := hsize r hr
      omega
  | succ levels ih =>
      obtain ⟨hr, rfl⟩ := Forest.mem_of_get? known
      rw [stewardAt, outcome_resource_bind (hs.tree ▸ known), Attempt.outcome_get_bind]
      cases hkept : s.stewards.lookup r.name with
      | some m => exact .done .start hkept
      | none =>
          have hown : Comes b (fun w => Family t r.name w ∧ ∀ m, w ≠ .joined r.name m) s _ _
              ((Service.store b r.name).outcome s) :=
            store_comes (hs.tree ▸ known) (fun e => ⟨.inl .self, nofun⟩)
              fun store => ⟨.inl .self, nofun⟩
          refine (hown.unjoined hkept).bind (fun own u₁ work₁ ⟨hown, _, hnone₁⟩ => ?_)
            fun v ⟨hnone, h⟩ => ⟨.own hnone, h⟩
          have hs₁ := work₁.orderly hs
          have habove : Comes b (fun w => Family t r.name w ∧ ∀ m, w ≠ .joined r.name m) u₁ _ _
              ((parentRef b r).outcome u₁) :=
            parentRef_comes (hs₁.tree ▸ ht.parent r hr) fun parent hparent =>
              ⟨fun e => ⟨.inr ⟨r, known, hparent⟩, nofun⟩,
                fun store => ⟨.inr ⟨r, known, hparent⟩, nofun⟩⟩
          refine (habove.unjoined hnone₁).bind
            (fun link u₂ work₂ ⟨⟨hroot, habove⟩, hu₂, hnone₂⟩ => ?_)
            fun v ⟨⟨parent, hparent, hnone⟩, h⟩ => ⟨.parent hparent hnone, h⟩
          have hs₂ := work₂.orderly hs₁
          have hchild : ∀ name ∈ r.children, ∀ u, Orderly t u →
              Comes b (fun w => Family t r.name w ∧ ∀ m, w ≠ .joined r.name m) u
                (fun below v => below.2.resource.name = name ∧ HasChild r below v)
                (fun v => ∃ child : Resource, child.name = name ∧ v.Lacks child ∧
                  v.stewards.lookup name = none)
                ((do
                  let child ← resource name
                  return (childRef r child, ← stewardAt b levels name)).outcome u) := by
            intro name hname u hu
            rw [ht.children r hr] at hname
            obtain ⟨child, hchild, rfl⟩ := List.mem_map.mp hname
            obtain ⟨hmem, hparent⟩ := List.mem_filter.mp hchild
            have hknown := Forest.get?_of_mem ht.sound hmem
            have hlower := hrank child hmem r.name (eq_of_beq hparent)
            have hcall := ih hknown (by omega) hu
            exact child_comes hrank hknown (eq_of_beq hparent) hu
              (hcall.mono (fun _ h => h) (fun _ _ h => h) fun _ h => ⟨child, rfl, h⟩)
          refine ((mapM_comes hchild (fun below _ _ hv h => h.grown hv) hs₂).unjoined hnone₂).bind
            (fun children u₃ work₃ ⟨⟨hnames, hbelow⟩, hu₃, hnone₃⟩ => ?_) ?_
          · refine join_comes ht known (work₃.orderly hs₂) hnone₃
              (hu₃.store _ _ (hu₂.store _ _ hown)) hroot (fun parent hparent => ?_) hnames hbelow
            obtain ⟨store, hstore, hlink⟩ := habove parent hparent
            exact ⟨store, hu₃.store _ _ hstore, hlink⟩
          · rintro v ⟨⟨earlier, name, later, hsplit, hearlier, child, rfl, hlacks, hnone⟩, h⟩
            refine ⟨.child hsplit (fun name hname => ?_) hnone hlacks, h⟩
            obtain ⟨below, rfl, hbelow⟩ := hearlier name hname
            exact ⟨below.2, hbelow.2.2⟩

/-! ## No call goes on for ever -/

theorem mapM_congr {f g : String → Attempt (Service σ ρ) β} {names : List String}
    (hsame : ∀ name ∈ names, ∀ u, Orderly t u → (f name).outcome u = (g name).outcome u)
    (horderly : ∀ name ∈ names, ∀ u, Orderly t u → Orderly t ((f name).outcome u).2)
    (hs : Orderly t s) : (names.mapM f).outcome s = (names.mapM g).outcome s := by
  induction names generalizing s with
  | nil => rfl
  | cons name names ih =>
      rw [List.forall_mem_cons] at hsame horderly
      rw [List.mapM_cons, List.mapM_cons]
      refine Attempt.outcome_bind_congr (hsame.1 s hs) fun a u hu => ?_
      have hu : Orderly t u := by
        have h := horderly.1 s hs
        rwa [hu] at h
      exact Attempt.outcome_bind_congr (ih hsame.2 horderly.2 hu) fun _ _ _ => rfl

/-- The bound on the depth of the calls is nothing that a call could run into. -/
theorem stewardAt_levels (ht : t.Linked) {rank : String → Nat} (hrank : t.Ranks rank)
    (hsize : ∀ r ∈ t.resources, rank r.name ≤ t.size) {levels levels' : Nat} {r : Resource}
    (known : t.get? name = some r) (h : t.size < levels + rank name)
    (h' : t.size < levels' + rank name) (hs : Orderly t s) :
    (stewardAt b levels name).outcome s = (stewardAt b levels' name).outcome s := by
  induction levels generalizing levels' name r s with
  | zero =>
      obtain ⟨hr, rfl⟩ := Forest.mem_of_get? known
      have := hsize r hr
      omega
  | succ levels ih =>
      obtain ⟨hr, rfl⟩ := Forest.mem_of_get? known
      obtain ⟨levels', rfl⟩ : ∃ less, levels' = less + 1 := by
        have := hsize r hr
        exact ⟨levels' - 1, by omega⟩
      rw [stewardAt, stewardAt, outcome_resource_bind (hs.tree ▸ known),
        outcome_resource_bind (hs.tree ▸ known), Attempt.outcome_get_bind, Attempt.outcome_get_bind]
      cases s.stewards.lookup r.name with
      | some m => rfl
      | none =>
          refine Attempt.outcome_bind_congr rfl fun own u₁ hown => ?_
          have hstore : Comes b (fun _ => True) s _ _ ((Service.store b r.name).outcome s) :=
            store_comes (hs.tree ▸ known) (fun _ => trivial) fun _ => trivial
          have hs₁ := hstore.steps.orderly hs
          rw [hown] at hs₁
          refine Attempt.outcome_bind_congr rfl fun link u₂ hlink => ?_
          have habove : Comes b (fun _ => True) u₁ _ _ ((parentRef b r).outcome u₁) :=
            parentRef_comes (hs₁.tree ▸ ht.parent r hr)
              fun _ _ => ⟨fun _ => trivial, fun _ => trivial⟩
          have hs₂ := habove.steps.orderly hs₁
          rw [hlink] at hs₂
          refine Attempt.outcome_bind_congr (mapM_congr ?_ ?_ hs₂) fun _ _ _ => rfl
          all_goals
            intro name hname u hu
            rw [ht.children r hr] at hname
            obtain ⟨child, hchild, rfl⟩ := List.mem_map.mp hname
            obtain ⟨hmem, hparent⟩ := List.mem_filter.mp hchild
            have hknown := Forest.get?_of_mem ht.sound hmem
            have hlower := hrank child hmem r.name (eq_of_beq hparent)
            rw [outcome_resource_bind (hu.tree ▸ hknown)]
          · rw [outcome_resource_bind (hu.tree ▸ hknown)]
            exact Attempt.outcome_bind_congr (ih hknown (by omega) (by omega) hu) fun _ _ _ => rfl
          · have hdeep : t.size < levels + rank child.name := by omega
            rw [bind_pure_comp, Attempt.outcome_map]
            exact (stewardAt_comes ht hrank hsize hknown hdeep hu).steps.orderly hu

theorem outcome_store_of_unknown (unknown : s.tree.get? name = none) :
    (Service.store b name).outcome s = (.error (.unknownResource name), s) :=
  outcome_resource_bind_of_unknown unknown _

theorem outcome_steward_of_unknown (unknown : s.tree.get? name = none) :
    (steward b name).outcome s = (.error (.unknownResource name), s) := by
  rw [steward, Attempt.outcome_get_bind, stewardAt]
  exact outcome_resource_bind_of_unknown unknown _

theorem outcome_steward_of_kept {r : Resource} (known : s.tree.get? name = some r)
    {m : Steward ρ} (hkept : s.stewards.lookup name = some m) :
    (steward b name).outcome s = (.ok m, s) := by
  rw [steward, Attempt.outcome_get_bind, stewardAt, outcome_resource_bind known,
    Attempt.outcome_get_bind, hkept]
  rfl

theorem steward_comes (ht : t.Linked) {r : Resource} (known : t.get? name = some r)
    (hs : Orderly t s) :
    Comes b (Family t name) s (fun m u => u.stewards.lookup name = some m) (fun v => v.Lacks r)
      ((steward b name).outcome s) := by
  obtain ⟨rank, hrank, hsize⟩ := ht.ranked
  rw [steward, Attempt.outcome_get_bind, hs.tree]
  exact (stewardAt_comes ht hrank hsize known (by omega) hs).mono (fun _ h => h)
    (fun _ _ h => h) fun _ h => h.1

theorem steward_levels (ht : t.Linked) {r : Resource} (known : t.get? name = some r)
    (hs : Orderly t s) {levels : Nat} (hlevels : t.size < levels) :
    (stewardAt b levels name).outcome s = (steward b name).outcome s := by
  obtain ⟨rank, hrank, hsize⟩ := ht.ranked
  rw [steward, Attempt.outcome_get_bind, hs.tree]
  exact stewardAt_levels ht hrank hsize known (by omega) (by omega) hs

end Service

end Grove
