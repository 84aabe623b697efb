import Grove.Proofs.Steward.Cascade

/-!
# Removals that are tried again

Any query and any removal of a store may fail, and then a removal ends where it is. That it
can be tried again is for two reasons. What was done is halfway in the right order, so the
records that are left still have their owners and the same keys are found again. And what
was done once need not be able to be done twice, since nothing is left to do.

The second reason needs an invariant. A child whose records are gone was emptied by a
removal that ended well, so there is nothing in the way of emptying it: its criteria
compile, its records are not too many to be read, and the database takes the deletion if
there is one (`Cascade.Settled`). This is how it is known, when an attempt succeeds at last,
that the first would have succeeded had no call failed.
-/

namespace Grove

namespace Cascade

variable {k : Cascade} {rank : String → Nat} {r : Resource} {c : Option Criteria} {p : Archive}

/-- Nothing of its own stops a removal from the resource, however far it has been taken. -/
def Clears (k : Cascade) (r : Resource) (c : Option Criteria) : Prop :=
  ∀ m : Steward DocumentStore, m.Complete .ofResource k.tree → m.resource = r →
    ∀ p, k.Halfway p → ∃ n q, (m.remove Archive.backend c).outcome p = (.ok n, q)

/-- What was emptied below the root can be emptied. -/
def Settled (k : Cascade) (p : Archive) : Prop :=
  ∀ parent child, k.tree.Cascades parent child → child.name ≠ k.root →
    p.holding child.name ≠ k.before.holding child.name →
    k.Clears child (k.criteriaBelow parent child)

/-- All that a removal from a resource needs to end well. -/
structure Ready (k : Cascade) (r : Resource) (c : Option Criteria) : Prop where
  compiled : ∃ m, Matcher.ofCriteria c = .ok m
  readable : (∃ child, k.tree.Cascades r child) → k.Readable r.name
  below : k.lostKeys r ≠ [] → ∀ child, k.tree.Cascades r child →
    k.Clears child (k.criteriaBelow r child)
  writable : k.before.refusal = none ∨ k.lost r.name = []

theorem matching_of_halfway {name : String} {m : Matcher} (haims : k.Aims c name)
    (hm : Matcher.ofCriteria c = .ok m) (hp : k.Halfway p) :
    (p.collection name).matching m = k.lost name ∨ (p.collection name).matching m = [] :=
  (hp.partly.holding name).imp (matching_of_untouched haims hm) fun h =>
    matching_of_cleared haims hm h.2

end Cascade

namespace Steward

variable {k : Cascade} {rank : String → Nat} {r : Resource} {c : Option Criteria} {p : Archive}

/-! ## What is ready succeeds -/

theorem removeBelow_isOk (hrank : k.tree.Ranks rank) (hreach : k.tree.Reaches k.root r.name)
    {children : List (ChildRef × Steward DocumentStore)} (hlinks : Links k.tree r children)
    (hclears : ∀ child, k.tree.Cascades r child → k.Clears child (k.criteriaBelow r child))
    (hp : k.Halfway p) :
    ∃ q, (removeBelow Archive.backend (k.lostKeys r) children).outcome p = (.ok (), q) := by
  induction children generalizing p with
  | nil => exact ⟨p, rfl⟩
  | cons listed rest ih =>
      obtain ⟨link, child⟩ := listed
      by_cases hcascades : link.cascades = true
      · have hcascade := hlinks.cascades List.mem_cons_self hcascades
        have hcomplete := hlinks.complete _ List.mem_cons_self
        obtain ⟨n, q, hchild⟩ := hclears _ hcascade child hcomplete rfl p hp
        have haims := Cascade.aims_below hcascade (Cascade.name_ne_root hrank hreach hcascade)
        have hremoved := remove_removed (u := p) Archive.backend_faulty hrank hcomplete
          (.step hreach hcascade) haims hp
        rw [hchild] at hremoved
        rw [removeBelow_cons hlinks hcascades, Attempt.outcome_bind, hchild]
        exact ih hlinks.tail hremoved.halfway
      · rw [removeBelow, if_neg hcascades]
        exact ih hlinks.tail hp

/-- The keys are read and the children emptied, when both can be done. -/
theorem clearBelow_isOk (hrank : k.tree.Ranks rank) (hreach : k.tree.Reaches k.root r.name)
    {children : List (ChildRef × Steward DocumentStore)} (hlinks : Links k.tree r children)
    (haims : k.Aims c r.name) (hready : k.Ready r c) (hp : k.Halfway p) :
    ∃ q, (clearBelow Archive.backend (.ofResource r) c children).outcome p = (.ok (), q) := by
  rw [clearBelow]
  split
  · next hany =>
      obtain ⟨below, hmem, hcascades⟩ := List.any_eq_true.mp hany
      obtain ⟨m, hm⟩ := hready.compiled
      have hbound : ((p.collection r.name).matching m).length <
          0 + windowsOfRange * Window.largestSize := by
        rw [Nat.zero_add]
        rcases Cascade.matching_of_halfway haims hm hp with hlost | hnone
        · rw [hlost]
          exact hready.readable ⟨_, hlinks.cascades hmem hcascades⟩
        · rw [hnone]
          decide
      obtain ⟨keys, hkeys⟩ := keysFrom_isOk (s := .ofResource r) hm (Nat.zero_le _) hbound
      rw [← selectedKeys] at hkeys
      rw [Attempt.outcome_bind, hkeys]
      by_cases hsome : keys = []
      · subst hsome
        exact ⟨p, rfl⟩
      · obtain ⟨hlost, huntouched⟩ :=
          selectedKeys_lost (u := p) Archive.backend_faulty haims hp hkeys
        obtain ⟨rfl, -⟩ := hlost (huntouched hsome)
        have hmany : (!(k.lostKeys r).isEmpty) = true := by simpa using hsome
        simp only [hmany, if_true]
        exact removeBelow_isOk hrank hreach hlinks (hready.below hsome) hp
  · exact ⟨p, rfl⟩

/-- What a removal needs to end well is enough for it to end well. -/
theorem clears_of_ready (hrank : k.tree.Ranks rank) (hreach : k.tree.Reaches k.root r.name)
    (haims : k.Aims c r.name) (hready : k.Ready r c) : k.Clears r c := by
  intro m hm hr p hp
  match m with
  | .mk r' store parent children =>
      obtain rfl : r' = r := hr
      obtain rfl : store = .ofResource r' := hm.store_eq
      obtain ⟨q, hclear⟩ := clearBelow_isOk hrank hreach hm.links haims hready hp
      have hemptied :=
        clearBelow_of_complete (u := p) Archive.backend_faulty hrank hm hreach haims hp
      rw [hclear] at hemptied
      have hq : k.Halfway q := hemptied.halfway
      obtain ⟨selected, hselected⟩ := hready.compiled
      have hwritable : q.refusal = none ∨ (q.collection r'.name).matching selected = [] := by
        rcases Cascade.matching_of_halfway haims hselected hq with hlost | hnone
        · rw [hlost, hq.partly.refusal]
          exact hready.writable
        · exact .inr hnone
      rw [remove_eq, Attempt.outcome_bind, hclear]
      exact DocumentStore.remove_isOk (.ofResource r') q c hselected hwritable

/-! ## What has succeeded was ready -/

section Faulty

variable {σ : Type} {b : Backend σ DocumentStore} {archive : σ → Archive} {u : σ}

/-- What emptying the children has shown, when it ends well and nothing was gone before. -/
theorem clearBelow_settled (hb : b.Faulty archive)
    {children : List (ChildRef × Steward DocumentStore)}
    (hlisted : ∀ child, k.tree.Cascades r child → Listed children child)
    (haims : k.Aims c r.name) (hu : k.Halfway (archive u)) (hs : k.Settled (archive u))
    (hbelow : ∀ v, k.Halfway (archive v) → k.Settled (archive v) →
      k.Settled (archive ((removeBelow b (k.lostKeys r) children).outcome v).2) ∧
      (((removeBelow b (k.lostKeys r) children).outcome v).1 = .ok () →
        ∀ child, Listed children child → k.Clears child (k.criteriaBelow r child))) :
    k.Settled (archive ((clearBelow b (.ofResource r) c children).outcome u).2) ∧
    (((clearBelow b (.ofResource r) c children).outcome u).1 = .ok () →
      (archive u).holding r.name = k.before.holding r.name →
      ((∃ child, k.tree.Cascades r child) → k.Readable r.name) ∧
      (k.lostKeys r ≠ [] → ∀ child, k.tree.Cascades r child →
        k.Clears child (k.criteriaBelow r child))) := by
  obtain ⟨hnone, hdone⟩ | ⟨f, v, hsame, hfails⟩ | ⟨v, hsame, hlost, hdone⟩ |
    ⟨v, hsame, -, hreadable, hdone⟩ := clearBelow_cases hb children haims hu
  · have hleaf : ∀ child, ¬ k.tree.Cascades r child := fun child link =>
      not_listed_of_any_eq_false hnone child (hlisted child link)
    rw [hdone]
    exact ⟨hs, fun _ _ => ⟨fun ⟨child, link⟩ => absurd link (hleaf child),
      fun _ child link => absurd link (hleaf child)⟩⟩
  · rw [hfails, hsame]
    exact ⟨hs, nofun⟩
  · rw [hdone, hsame]
    exact ⟨hs, fun _ huntouched => ⟨fun _ => (hlost huntouched).2,
      fun hsome => absurd (hlost huntouched).1 hsome⟩⟩
  · rw [hdone]
    obtain ⟨hsettled, hclears⟩ := hbelow v (hsame ▸ hu) (hsame ▸ hs)
    exact ⟨hsettled, fun hok _ => ⟨fun _ => hreadable,
      fun _ child link => hclears hok child (hlisted child link)⟩⟩

section Own

variable (hb : b.Faulty archive) (hrank : k.tree.Ranks rank)
  {parent : Option (ParentRef DocumentStore)} {children : List (ChildRef × Steward DocumentStore)}
  (hm : (Steward.mk r (.ofResource r) parent children).Complete .ofResource k.tree)
  (hreach : k.tree.Reaches k.root r.name) (haims : k.Aims c r.name) (hu : k.Halfway (archive u))

include hb hrank hm hreach haims hu

/-- A removal that ends well had all that it needs. -/
theorem clears_of_eq_ok {n : Nat}
    (hok : (((mk r (.ofResource r) parent children).remove b c).outcome u).1 = .ok n)
    (huntouched : (archive u).holding r.name = k.before.holding r.name)
    (hfound : ((clearBelow b (.ofResource r) c children).outcome u).1 = .ok () →
      ((∃ child, k.tree.Cascades r child) → k.Readable r.name) ∧
      (k.lostKeys r ≠ [] → ∀ child, k.tree.Cascades r child →
        k.Clears child (k.criteriaBelow r child))) :
    k.Clears r c := by
  have hemptied := clearBelow_of_complete hb hrank hm hreach haims hu
  rw [remove_eq] at hok
  obtain ⟨⟨⟩, v, hclear, hremove⟩ := Attempt.outcome_bind_eq_ok.mp (Prod.ext hok rfl)
  rw [hclear] at hemptied hfound
  have hv : k.Halfway (archive v) := hemptied.halfway
  have hsame : (archive v).holding r.name = (archive u).holding r.name :=
    hemptied.onward.unchanged (Nat.lt_irrefl (rank r.name))
  obtain ⟨selected, hselected, hwritable⟩ := remove_eq_ok hb hremove
  have hmatching : ((archive v).collection (DocumentStore.ofResource r).collection).matching
      selected = k.lost r.name :=
    Cascade.matching_of_untouched haims hselected (hsame.trans huntouched)
  rw [hmatching, hv.partly.refusal] at hwritable
  obtain ⟨hreadable, hbelow⟩ := hfound rfl
  exact clears_of_ready hrank hreach haims ⟨⟨selected, hselected⟩, hreadable, hbelow, hwritable⟩

end Own

/-- Under other names a removal leaves what emptying the children has left. -/
theorem remove_after_others (hb : b.Faulty archive) {parent : Option (ParentRef DocumentStore)}
    {children : List (ChildRef × Steward DocumentStore)} {name : String} (hname : name ≠ r.name) :
    (archive (((mk r (.ofResource r) parent children).remove b c).outcome u).2).holding name =
      (archive ((clearBelow b (.ofResource r) c children).outcome u).2).holding name := by
  rw [remove_eq, Attempt.outcome_bind]
  rcases (clearBelow b (.ofResource r) c children).outcome u with ⟨f | ⟨⟩, v⟩
  · rfl
  · exact remove_others hb v hname

mutual

/-- Whatever comes of a removal, what it has emptied can be emptied; and when it ends well
and nothing of the resource was gone before, it would have ended well had no call failed. -/
theorem remove_settled (hb : b.Faulty archive) (hrank : k.tree.Ranks rank)
    {m : Steward DocumentStore} (hm : m.Complete .ofResource k.tree)
    (hreach : k.tree.Reaches k.root m.resource.name) {c : Option Criteria}
    (haims : k.Aims c m.resource.name)
    (hown : ∀ parent, k.tree.Cascades parent m.resource → m.resource.name ≠ k.root →
      c = k.criteriaBelow parent m.resource)
    {u : σ} (hu : k.Halfway (archive u)) (hs : k.Settled (archive u)) :
    k.Settled (archive ((m.remove b c).outcome u).2) ∧
    ∀ n, ((m.remove b c).outcome u).1 = .ok n →
      (archive u).holding m.resource.name = k.before.holding m.resource.name →
      k.Clears m.resource c := by
  match m with
  | .mk r store parent children =>
      rw [resource] at hreach haims hown ⊢
      obtain rfl : store = .ofResource r := hm.store_eq
      obtain ⟨hsettled, hfound⟩ := clearBelow_settled hb (fun _ => hm.listed) haims hu hs
        fun v hv hs => removeBelow_settled hb hrank hreach hm.links hv hs
      have hremoved := remove_removed hb hrank hm hreach haims hu
      have hclears : ∀ n,
          (((mk r (.ofResource r) parent children).remove b c).outcome u).1 = .ok n →
          (archive u).holding r.name = k.before.holding r.name → k.Clears r c :=
        fun n hok huntouched => clears_of_eq_ok hb hrank hm hreach haims hu hok huntouched
          fun hclear => hfound hclear huntouched
      refine ⟨fun above child link hroot htouched => ?_, hclears⟩
      by_cases hname : child.name = r.name
      · obtain rfl : child = r := by
          have hplace := link.below
          rw [hname, hm.links.placed] at hplace
          exact (Option.some.inj hplace).symm
        by_cases huntouched : (archive u).holding child.name = k.before.holding child.name
        · cases hresult :
              (((mk child (.ofResource child) parent children).remove b c).outcome u).1 with
          | error f => exact absurd ((hremoved.failed f hresult).trans huntouched) htouched
          | ok n =>
              rw [← hown above link hroot]
              exact hclears n hresult huntouched
        · exact hs above child link hroot huntouched
      · rw [remove_after_others hb hname] at htouched
        exact hsettled above child link hroot htouched

theorem removeBelow_settled (hb : b.Faulty archive) (hrank : k.tree.Ranks rank) {r : Resource}
    {children : List (ChildRef × Steward DocumentStore)} (hreach : k.tree.Reaches k.root r.name)
    (hlinks : Links k.tree r children) {u : σ} (hu : k.Halfway (archive u))
    (hs : k.Settled (archive u)) :
    k.Settled (archive ((removeBelow b (k.lostKeys r) children).outcome u).2) ∧
    (((removeBelow b (k.lostKeys r) children).outcome u).1 = .ok () →
      ∀ child, Listed children child → k.Clears child (k.criteriaBelow r child)) := by
  match children with
  | [] => exact ⟨hs, fun _ _ ⟨_, hmem, _⟩ => absurd hmem List.not_mem_nil⟩
  | (link, child) :: rest =>
      by_cases hcascades : link.cascades = true
      · have hcascade := hlinks.cascades List.mem_cons_self hcascades
        have hcomplete := hlinks.complete _ List.mem_cons_self
        have hroot := Cascade.name_ne_root hrank hreach hcascade
        have haims := Cascade.aims_below hcascade hroot
        have hremoved := remove_removed hb hrank hcomplete (.step hreach hcascade) haims hu
        obtain ⟨hsettled, hclears⟩ := remove_settled hb hrank hcomplete (.step hreach hcascade)
          haims (fun parent link _ => by rw [hcascade.parent_eq link]) hu hs
        rw [removeBelow_cons hlinks hcascades, Attempt.outcome_bind]
        rcases hchild : (child.remove b (k.criteriaBelow r child.resource)).outcome u
          with ⟨f | n, v⟩ <;> rw [hchild] at hremoved hsettled hclears
        · exact ⟨hsettled, nofun⟩
        obtain ⟨hrest, hrestClears⟩ :=
          removeBelow_settled hb hrank hreach hlinks.tail hremoved.halfway hsettled
        refine ⟨hrest, fun hok other hlisted => ?_⟩
        rcases listed_cons.mp hlisted with ⟨-, rfl⟩ | hlisted
        · by_cases huntouched : (archive u).holding child.resource.name =
              k.before.holding child.resource.name
          · exact hclears n rfl huntouched
          · exact hs r child.resource hcascade hroot huntouched
        · exact hrestClears hok other hlisted
      · obtain ⟨hrest, hrestClears⟩ := removeBelow_settled hb hrank hreach hlinks.tail hu hs
        rw [removeBelow, if_neg hcascades]
        exact ⟨hrest, fun hok other hlisted => hrestClears hok other
          ((listed_cons.mp hlisted).resolve_left fun hfirst => hcascades hfirst.1)⟩

end

/-- The state after attempts that have all failed. -/
inductive Tried (b : Backend σ DocumentStore) (m : Steward DocumentStore) (c : Option Criteria)
    (u : σ) : σ → Prop
  | before : Tried b m c u u
  | again {v w : σ} {f : Failure} : Tried b m c u v → (m.remove b c).outcome v = (.error f, w) →
      Tried b m c u w

/-- Attempts that fail leave the archive halfway in the right order, and the root as it was. -/
theorem Tried.halfway {t : Forest} (hb : b.Faulty archive) (hrank : t.Ranks rank)
    {m : Steward DocumentStore} (hm : m.Complete .ofResource t) {v : σ} (h : m.Tried b c u v) :
    let k : Cascade := ⟨t, archive u, m.resource.name, c⟩
    k.Halfway (archive v) ∧ k.Settled (archive v) ∧
      (archive v).holding k.root = k.before.holding k.root := by
  intro k
  induction h with
  | before =>
      exact ⟨Cascade.halfway_before, fun _ _ _ _ htouched => absurd rfl htouched, rfl⟩
  | again _ hfails ih =>
      obtain ⟨hhalfway, hsettled, hroot⟩ := ih
      have haims : k.Aims c m.resource.name := Cascade.aims_root hrank
      have hremoved := remove_removed (k := k) hb hrank hm .self haims hhalfway
      have hstill := remove_settled (k := k) hb hrank hm .self haims
        (fun _ _ hbelow => absurd rfl hbelow) hhalfway hsettled
      rw [hfails] at hremoved hstill
      exact ⟨hremoved.halfway, hstill.1, (hremoved.failed _ rfl).trans hroot⟩

end Faulty

end Steward

/-- However often a removal fails, its own resource is as it was, only records are gone that
it is to take away, and none before the records that belong to it in a child that is to be
emptied. The first attempt that succeeds answers what one attempt without failures answers
and leaves the same. -/
theorem failed_removal_repeatable {config : Config} {t : Forest}
    (hconfig : Forest.ofConfig config = .ok t) {σ : Type} {b : Backend σ DocumentStore}
    {archive : σ → Archive} (hb : b.Faulty archive) {s s' : Service σ DocumentStore}
    (hs : Service.InUse b t s) {name : String} {m : Steward DocumentStore}
    (hm : (Service.steward b name).outcome s = (.ok m, s')) {c : Option Criteria} {u v : σ}
    (htried : m.Tried b c u v) :
    let k : Cascade := ⟨t, archive u, name, c⟩
    (archive v).holding name = (archive u).holding name ∧
    (∀ other, (archive v).holding other = (archive u).holding other ∨
      (archive v).holding other = ((archive u).holding other).without (k.Condemned other)) ∧
    (∀ parent child, t.Cascades parent child →
      ∀ owner ∈ ((archive u).collection parent.name).records,
        owner ∉ ((archive v).collection parent.name).records →
        ∀ r ∈ ((archive v).collection child.name).records, ¬ parent.Owns child owner r) ∧
    ∀ n w, (m.remove b c).outcome v = (.ok n, w) →
      ∃ after, (m.remove Archive.backend c).outcome (archive u) = (.ok n, after) ∧
        ∀ other, (archive w).holding other = after.holding other := by
  have ht := Forest.sound_of_ofConfig hconfig
  obtain ⟨rank, hrank⟩ := ht.ranked
  obtain ⟨rfl, hcomplete⟩ := Service.complete_of_inUse hb.makes ht hs hm
  intro k
  obtain ⟨hhalfway, hsettled, hroot⟩ := htried.halfway hb hrank hcomplete
  have haims : k.Aims c m.resource.name := Cascade.aims_root hrank
  refine ⟨hroot, fun other => (hhalfway.partly.holding other).imp_right And.right,
    fun parent child link owner howner hgone r hr => hhalfway.not_owned link howner hgone hr, ?_⟩
  intro n w hok
  have hremoved := Steward.remove_removed (k := k) hb hrank hcomplete .self haims hhalfway
  have hclears : k.Clears m.resource c :=
    (Steward.remove_settled (k := k) hb hrank hcomplete .self haims
      (fun _ _ hbelow => absurd rfl hbelow) hhalfway hsettled).2 n (by rw [hok]) hroot
  rw [hok] at hremoved
  obtain ⟨n', after, hundisturbed⟩ := hclears m hcomplete rfl k.before Cascade.halfway_before
  have hwhole := Steward.remove_removed (k := k) (u := k.before) Archive.backend_faulty hrank
    hcomplete .self haims Cascade.halfway_before
  rw [hundisturbed] at hwhole
  obtain ⟨hcleared, selected, hselected, hcount⟩ := hremoved.done n rfl
  obtain ⟨hcleared', selected', hselected', hcount'⟩ := hwhole.done n' rfl
  have hsame : n = n' := by
    cases hselected.symm.trans hselected'
    rw [hcount, hcount']
    exact congrArg (fun h => (h.collection.matching selected).length) hroot
  refine ⟨after, hsame ▸ hundisturbed, fun other => ?_⟩
  exact (hremoved.halfway.finished hcleared other).trans
    (hwhole.halfway.finished hcleared' other).symm

/-! ## Failures by a script -/

/-- An archive, and which of the next queries and removals are to fail. -/
structure Unsteady where
  archive : Archive
  script : List (Option Failure)

namespace Unsteady

variable {α : Type}

def steady (x : Attempt Archive α) : Attempt Unsteady α :=
  x.within archive fun s archive => { s with archive }

/-- A call takes the next entry of the script, and fails if that is a failure. -/
def scripted (x : Attempt Archive α) : Attempt Unsteady α := .ofOutcome fun s =>
  match s.script with
  | some f :: script => (.error f, { s with script })
  | script => ((x.outcome s.archive).1, ⟨(x.outcome s.archive).2, script.tail⟩)

/-- Document stores whose queries and removals fail by the script. -/
def backend : Backend Unsteady DocumentStore where
  create r := steady (DocumentStore.opened r.name r.keys)
  keys := DocumentStore.keys
  add s record := steady (s.add record)
  find s c := steady (s.find c)
  query s c o := scripted (s.query c o)
  count s c := steady (s.count c)
  update s c changes := steady (s.update c changes)
  remove s c := scripted (s.remove c)
  now := steady Archive.now

theorem scripted_cases (x : Attempt Archive α) (s : Unsteady) :
    (∃ f, ((scripted x).outcome s).1 = .error f ∧
      ((scripted x).outcome s).2.archive = s.archive) ∨
    (((scripted x).outcome s).1 = (x.outcome s.archive).1 ∧
      ((scripted x).outcome s).2.archive = (x.outcome s.archive).2) := by
  rw [scripted, Attempt.outcome_ofOutcome]
  split
  · next f script _ => exact .inl ⟨f, rfl, rfl⟩
  · exact .inr ⟨rfl, rfl⟩

theorem backend_faulty : backend.Faulty archive where
  makes r s made h := Archive.backend_makes r s.archive made h
  keys := rfl
  query s c o u := by
    have hreads : ((s.query c o).outcome u.archive).2 = u.archive := by
      rw [DocumentStore.outcome_query]
    obtain ⟨f, hfails, hsame⟩ | ⟨hanswer, hstate⟩ := scripted_cases (s.query c o) u
    · exact ⟨hsame, fun found hfound => by cases hfails.symm.trans hfound⟩
    · exact ⟨hstate.trans hreads, fun found hfound => hanswer.symm.trans hfound⟩
  remove s c u := scripted_cases (s.remove c) u

end Unsteady

/-- The first attempt removes a note and then fails, and the second one ends well. -/
theorem failed_removal_repeatable_project :
    let c := some firstProject
    let start : Unsteady := ⟨boardArchive, [none, none, none, some (.internal "timed out")]⟩
    let s : Service Unsteady DocumentStore := { tree := boardTree, state := start }
    Forest.ofConfig boards = .ok boardTree ∧ Unsteady.backend.Faulty Unsteady.archive ∧
    Service.InUse Unsteady.backend boardTree s ∧
    ∃ m s' v w, (Service.steward Unsteady.backend "projects").outcome s = (.ok m, s') ∧
      m.Tried Unsteady.backend c start v ∧
      (v.archive.collection "notes").records.length = 1 ∧
      (m.remove Unsteady.backend c).outcome v = (.ok 1, w) ∧
      ∃ after, (m.remove Archive.backend c).outcome boardArchive = (.ok 1, after) ∧
        ∀ other, w.archive.holding other = after.holding other := by
  intro c start s
  have hs : Service.InUse Unsteady.backend boardTree s := .fresh _
  have hrun : (match (Service.steward Unsteady.backend "projects").outcome s with
      | (.ok m, _) =>
        match (m.remove Unsteady.backend c).outcome start with
        | (.error _, v) => some ((v.archive.collection "notes").records.length,
            ((m.remove Unsteady.backend c).outcome v).1.toOption)
        | (.ok _, _) => none
      | (.error _, _) => none) = some (1, some 1) := by decide +kernel
  rcases hm : (Service.steward Unsteady.backend "projects").outcome s with ⟨f | m, s'⟩ <;>
    rw [hm] at hrun
  · cases hrun
  rcases hfails : (m.remove Unsteady.backend c).outcome start with ⟨f | n, v⟩ <;>
    simp only [hfails] at hrun
  · rcases hremove : (m.remove Unsteady.backend c).outcome v with ⟨f' | n, w⟩ <;>
      rw [hremove] at hrun <;> obtain ⟨hnotes, hcount⟩ := Prod.mk.inj (Option.some.inj hrun)
    · cases hcount
    cases Option.some.inj hcount
    have htried : m.Tried Unsteady.backend c start v := .again .before hfails
    obtain ⟨-, -, -, hsuccess⟩ :=
      failed_removal_repeatable boards_tree Unsteady.backend_faulty hs hm htried
    exact ⟨boards_tree, Unsteady.backend_faulty, hs, m, s', v, w, rfl, htried, hnotes, hremove,
      hsuccess 1 w hremove⟩
  · cases hrun

end Grove
