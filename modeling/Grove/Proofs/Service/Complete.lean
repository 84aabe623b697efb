import Grove.Proofs.Service

/-!
# Stewards that miss no child

A steward that leaves out a child of its resource would answer as well as any other, until
records are removed that the child's records belong to. `Steward.Complete` says that none
is left out, all the way down, and that the stores are the ones that the tree describes.
Every steward that a service hands out is complete, in whatever order its stewards are
asked for (`complete_of_inUse`): a steward is made from a list with one entry for every
child that the resource names, and in a tree that was checked it names them all.
-/

namespace Grove

variable {σ ρ : Type}

def Backend.Makes (b : Backend σ ρ) (make : Resource → ρ) : Prop :=
  ∀ r s made, ((b.create r).outcome s).1 = .ok made → made = make r

/-- The steward has the store of its resource and a complete steward for every child. -/
inductive Steward.Complete (make : Resource → ρ) (t : Forest) : Steward ρ → Prop
  | mk {r : Resource} {parent : Option (ParentRef ρ)} {children : List (ChildRef × Steward ρ)}
      (placed : t.get? r.name = some r)
      (below : ∀ below ∈ children, below.1 = Service.childRef r below.2.resource ∧
        below.2.resource.parent = some r.name)
      (every : ∀ child, t.get? child.name = some child → child.parent = some r.name →
        ∃ below ∈ children, below.2.resource = child)
      (complete : ∀ below ∈ children, Steward.Complete make t below.2) :
      Steward.Complete make t (.mk r (make r) parent children)

variable {make : Resource → ρ} {t : Forest} {b : Backend σ ρ}

theorem Steward.Complete.placed {m : Steward ρ} (hm : m.Complete make t) :
    t.get? m.resource.name = some m.resource := by
  cases hm with
  | mk placed below every complete => exact placed

theorem Steward.Complete.store_eq {m : Steward ρ} (hm : m.Complete make t) :
    m.store = make m.resource := by
  cases hm with
  | mk placed below every complete => rfl

theorem Steward.Complete.resource_eq {m : Steward ρ} (hm : m.Complete make t) {name : String}
    (hname : m.resource.name = name) {r : Resource} (known : t.get? name = some r) :
    m.resource = r := by
  have hplaced := hm.placed
  rw [hname, known] at hplaced
  exact (Option.some.inj hplaced).symm

namespace Service

/-- The services that can come about when a backend is used for a tree. -/
inductive InUse (b : Backend σ ρ) (t : Forest) : Service σ ρ → Prop
  | fresh (state : σ) : InUse b t { tree := t, state }
  | store {s : Service σ ρ} (name : String) : InUse b t s → InUse b t ((store b name).outcome s).2
  | steward {s : Service σ ρ} (name : String) :
      InUse b t s → InUse b t ((steward b name).outcome s).2
  | changed {s : Service σ ρ} (state : σ) : InUse b t s → InUse b t { s with state }

/-- The stores that are kept are those of their resources, and the stewards are complete. -/
structure Kept (make : Resource → ρ) (t : Forest) (s : Service σ ρ) : Prop where
  tree : s.tree = t
  store : ∀ name made, s.stores.lookup name = some made →
    ∃ r, t.get? name = some r ∧ made = make r
  steward : ∀ name m, s.stewards.lookup name = some m →
    m.resource.name = name ∧ m.Complete make t

abbrev Keeping (make : Resource → ρ) (t : Forest) (s u : Service σ ρ) : Prop :=
  s = u ∧ Kept make t s

theorem resource_keeping (name : String) :
    (resource name : Attempt (Service σ ρ) Resource).Respects (Keeping make t)
      fun r => t.get? name = some r := by
  refine Attempt.respects_get fun s u ⟨hsu, hkept⟩ => ⟨by rw [hsu], ?_⟩
  rw [hkept.tree]
  cases t.get? name with
  | none => exact Attempt.respects_throw
  | some r => exact Attempt.respects_pure rfl

theorem keepStore_keeping {name : String} {r : Resource} (hr : t.get? name = some r) :
    (modify fun s => { s with stores := (name, make r) :: s.stores } :
      Attempt (Service σ ρ) PUnit).Respects (Keeping make t) fun _ => True := by
  refine Attempt.respects_modify fun s u ⟨hsu, hkept⟩ =>
    ⟨by rw [hsu], hkept.tree, ?_, hkept.steward⟩
  intro other kept hlookup
  rw [List.lookup_cons] at hlookup
  split at hlookup
  · next hname =>
      cases hlookup
      exact ⟨r, by rw [eq_of_beq hname]; exact hr, rfl⟩
  · exact hkept.store other kept hlookup

theorem keepSteward_keeping {name : String} {m : Steward ρ} (hname : m.resource.name = name)
    (hm : m.Complete make t) :
    (modify fun s => { s with stewards := (name, m) :: s.stewards } :
      Attempt (Service σ ρ) PUnit).Respects (Keeping make t) fun _ => True := by
  refine Attempt.respects_modify fun s u ⟨hsu, hkept⟩ =>
    ⟨by rw [hsu], hkept.tree, hkept.store, ?_⟩
  intro other kept hlookup
  rw [List.lookup_cons] at hlookup
  split at hlookup
  · next heq =>
      cases hlookup
      exact ⟨by rw [hname, eq_of_beq heq], hm⟩
  · exact hkept.steward other kept hlookup

section

variable (hb : b.Makes make)

include hb

theorem store_keeping (name : String) :
    (store b name).Respects (Keeping make t) fun made =>
      ∃ r, t.get? name = some r ∧ made = make r := by
  refine (resource_keeping name).bind fun r hr => ?_
  refine Attempt.respects_get fun s u ⟨hsu, hkept⟩ => ⟨by rw [hsu], ?_⟩
  cases hlookup : s.stores.lookup name with
  | some made => exact Attempt.respects_pure (hkept.store name made hlookup)
  | none =>
      have hcreate : (onBackend (b.create r) : Attempt (Service σ ρ) ρ).Respects (Keeping make t)
          fun made => made = make r := by
        refine Attempt.respects_invariant.mpr fun s hs => ⟨⟨hs.tree, hs.store, hs.steward⟩, ?_⟩
        exact fun made hmade => hb r s.state made hmade
      refine hcreate.bind fun made hmade => ?_
      subst hmade
      exact (keepStore_keeping hr).bind fun _ _ => Attempt.respects_pure ⟨r, hr, rfl⟩

theorem parentRef_keeping (r : Resource) :
    (parentRef b r).Respects (Keeping make t) fun _ => True := by
  rw [parentRef]
  split
  · exact (store_keeping hb _).bind fun _ _ => Attempt.respects_pure trivial
  · exact Attempt.respects_pure trivial

/-- The children that are made are those that the resource names, which are all there are. -/
theorem stewardAt_keeping (ht : t.Sound) (levels : Nat) (name : String) :
    (stewardAt b levels name).Respects (Keeping make t) fun m =>
      m.resource.name = name ∧ m.Complete make t := by
  induction levels generalizing name with
  | zero => exact Attempt.respects_throw
  | succ levels ih =>
      refine (resource_keeping name).bind fun r hr => ?_
      refine Attempt.respects_get fun s u ⟨hsu, hkept⟩ => ⟨by rw [hsu], ?_⟩
      obtain ⟨hmem, rfl⟩ := Forest.mem_of_get? hr
      cases hlookup : s.stewards.lookup r.name with
      | some made => exact Attempt.respects_pure (hkept.steward r.name made hlookup)
      | none =>
          refine (store_keeping hb r.name).bind fun own hown => ?_
          refine (parentRef_keeping hb r).bind fun parent _ => ?_
          have hchild : ∀ name ∈ r.children, (do
              let child ← resource name
              return (childRef r child, ← stewardAt b levels name) :
                Attempt (Service σ ρ) (ChildRef × Steward ρ)).Respects (Keeping make t)
              fun below => t.get? name = some below.2.resource ∧
                below.1 = childRef r below.2.resource ∧ below.2.Complete make t := by
            intro name hname
            refine (resource_keeping name).bind fun child hchild => (ih name).bind fun m hm => ?_
            obtain rfl := hm.2.resource_eq hm.1 hchild
            exact Attempt.respects_pure ⟨hchild, rfl, hm.2⟩
          refine (Attempt.Respects.mapM_each hchild).bind fun children ⟨hfrom, hto⟩ => ?_
          obtain ⟨_, hown, rfl⟩ := hown
          cases hr.symm.trans hown
          have hcomplete : (Steward.mk r (make r) parent children).Complete make t := by
            refine .mk hr (fun below hbelow => ?_) (fun child hplace hparent => ?_)
              fun below hbelow => ?_
            · obtain ⟨name, hname, hplace, hlink, -⟩ := hfrom below hbelow
              obtain ⟨hchild, rfl⟩ := Forest.mem_of_get? hplace
              exact ⟨hlink, ht.parent_of_child r hmem _ hchild hname⟩
            · have hname := ht.child_of_parent r hmem child (Forest.mem_of_get? hplace).1 hparent
              obtain ⟨below, hbelow, hsame, -⟩ := hto child.name hname
              exact ⟨below, hbelow, Option.some.inj (hsame.symm.trans hplace)⟩
            · obtain ⟨name, -, -, -, hcomplete⟩ := hfrom below hbelow
              exact hcomplete
          exact (keepSteward_keeping rfl hcomplete).bind fun _ _ =>
            Attempt.respects_pure ⟨rfl, hcomplete⟩

theorem steward_keeping (ht : t.Sound) (name : String) :
    (steward b name).Respects (Keeping make t) fun m =>
      m.resource.name = name ∧ m.Complete make t := by
  refine Attempt.respects_get fun s u ⟨hsu, hkept⟩ => ⟨by rw [hsu], ?_⟩
  exact stewardAt_keeping hb ht _ name

theorem kept_of_inUse (ht : t.Sound) {s : Service σ ρ} (h : InUse b t s) : Kept make t s := by
  induction h with
  | fresh state => exact ⟨rfl, nofun, nofun⟩
  | store name _ ih => exact (Attempt.respects_invariant.mp (store_keeping hb name) _ ih).1
  | steward name _ ih => exact (Attempt.respects_invariant.mp (steward_keeping hb ht name) _ ih).1
  | changed state _ ih => exact ⟨ih.tree, ih.store, ih.steward⟩

/-- The stewards that a service hands out miss no child. -/
theorem complete_of_inUse (ht : t.Sound) {s u : Service σ ρ} (h : InUse b t s) {name : String}
    {m : Steward ρ} (hm : (steward b name).outcome s = (.ok m, u)) :
    m.resource.name = name ∧ m.Complete make t :=
  (Attempt.respects_invariant.mp (steward_keeping hb ht name) s (kept_of_inUse hb ht h)).2 m
    (by rw [hm])

end

end Service

end Grove
