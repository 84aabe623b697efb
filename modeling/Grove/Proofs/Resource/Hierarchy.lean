import Mathlib.Data.Finset.Card
import Mathlib.Data.List.Basic
import Mathlib.Data.Finset.SDiff
import Mathlib.Data.Finset.Dedup
import Grove.Proofs.Resource.Forest

/-!
# Validation accepts exactly the forests

A configuration is a forest when each resource is sound on its own, names tell resources apart,
every parent is a resource, and going from parent to parent ends at a resource that has none. That
is what the checks accept (`check_accepts_forests`).

How far one has to go up is not known beforehand. A walk that keeps the names it has passed needs
no bound (`climbs`): it stops where a name comes back, and since only resources have parents, the
resources not yet passed become fewer with every step. The same count shows that as many steps as
there are resources, and one more, are enough (`climbs_eq_reachesRoot`). A name that comes back is
above itself, so the way up from it has no end at all (`not_ends_of_above_itself`), and this is
what a reported cycle means.
-/

namespace Grove.Config

variable {c : Config} {name parent : String}

/-! ## The way up -/

/-- The name that stands so many parents above a name, if the way up is that long. -/
def ancestor? (c : Config) : Nat → String → Option String
  | 0, name => some name
  | k + 1, name => (c.parentOf name).bind (c.ancestor? k)

def Ends (c : Config) (name : String) : Prop := ∃ k, c.ancestor? k name = none

theorem ends_of_parentOf_eq_none (h : c.parentOf name = none) : c.Ends name :=
  ⟨1, by rw [ancestor?, h]; rfl⟩

theorem ends_parent_iff (h : c.parentOf name = some parent) : c.Ends name ↔ c.Ends parent := by
  constructor
  · rintro ⟨k, hk⟩
    cases k with
    | zero => cases hk
    | succ k => exact ⟨k, by rwa [ancestor?, h] at hk⟩
  · rintro ⟨k, hk⟩
    exact ⟨k + 1, by rwa [ancestor?, h]⟩

theorem ancestor?_add (c : Config) (j k : Nat) (name : String) :
    c.ancestor? (j + k) name = (c.ancestor? j name).bind (c.ancestor? k) := by
  induction j generalizing name with
  | zero => rw [Nat.zero_add]; rfl
  | succ j ih =>
      rw [Nat.succ_add, ancestor?, ancestor?]
      cases c.parentOf name with
      | none => rfl
      | some above => exact ih above

/-- Above a name that is above itself there is always another one. -/
theorem not_ends_of_above_itself {j : Nat} (hj : 0 < j) (h : c.ancestor? j name = some name) :
    ¬ c.Ends name := by
  rintro ⟨k, hk⟩
  induction k using Nat.strongRecOn with
  | ind k ih =>
      by_cases hlt : k < j
      · -- The way up is long enough to come back, so it has not ended before that.
        have hback := c.ancestor?_add k (j - k) name
        rw [Nat.add_sub_cancel' (Nat.le_of_lt hlt), h, hk] at hback
        cases hback
      · have hround := c.ancestor?_add j (k - j) name
        rw [Nat.add_sub_cancel' (Nat.le_of_not_lt hlt), hk, h] at hround
        exact ih (k - j) (by omega) hround.symm

/-! ## Walks that remember -/

/-- The resources whose names have not been passed. -/
def unseen (c : Config) (seen : List String) : Nat :=
  ((c.resources.map (·.name)).toFinset \ seen.toFinset).card

theorem mem_names_of_parentOf (h : c.parentOf name = some parent) :
    name ∈ c.resources.map (·.name) := by
  obtain ⟨r, hr, -⟩ := Option.bind_eq_some_iff.mp h
  have hname : r.name = name := by simpa using List.find?_some hr
  exact hname ▸ List.mem_map_of_mem (List.mem_of_find?_eq_some hr)

/-- Passing a resource for the first time leaves fewer. -/
theorem unseen_lt {seen : List String} (hnew : name ∉ seen) (h : c.parentOf name = some parent) :
    c.unseen (name :: seen) < c.unseen seen := by
  refine Finset.card_lt_card (Finset.ssubset_iff_of_subset ?_ |>.mpr ⟨name, ?_, ?_⟩)
  · exact Finset.sdiff_subset_sdiff (Finset.Subset.refl _) (by simp [Finset.subset_iff]; tauto)
  · simpa [hnew] using mem_names_of_parentOf h
  · simp

/-- Walks up from a name, where those in `seen` have been passed before, to see whether the way
ends. A name that comes back says that it does not. -/
def climbs (c : Config) (seen : List String) (name : String) : Bool :=
  if _hseen : name ∈ seen then false
  else
    match _hparent : c.parentOf name with
    | none => true
    | some parent => c.climbs (name :: seen) parent
termination_by c.unseen seen
decreasing_by exact unseen_lt _hseen _hparent

def Below (c : Config) (seen : List String) (name : String) : Prop :=
  ∀ passed ∈ seen, ∃ j, 0 < j ∧ c.ancestor? j passed = some name

theorem below_nil : c.Below [] name := fun _ h => absurd h List.not_mem_nil

theorem Below.step {seen : List String} (h : c.Below seen name)
    (hparent : c.parentOf name = some parent) : c.Below (name :: seen) parent := by
  have hone : c.ancestor? 1 name = some parent := by rw [ancestor?, hparent]; rfl
  refine List.forall_mem_cons.mpr ⟨⟨1, Nat.one_pos, hone⟩, fun passed hpassed => ?_⟩
  obtain ⟨j, -, hj⟩ := h passed hpassed
  exact ⟨j + 1, Nat.succ_pos j, by rw [ancestor?_add, hj]; exact hone⟩

/-- The walk says whether the way up ends. -/
theorem climbs_iff {seen : List String} (h : c.Below seen name) :
    c.climbs seen name = true ↔ c.Ends name := by
  induction seen, name using climbs.induct c with
  | case1 seen name hseen =>
      obtain ⟨j, hj, hback⟩ := h name hseen
      rw [climbs, dif_pos hseen]
      exact ⟨nofun, fun hends => absurd hends (not_ends_of_above_itself hj hback)⟩
  | case2 seen name hseen hparent =>
      rw [climbs, dif_neg hseen]
      split
      · exact ⟨fun _ => ends_of_parentOf_eq_none hparent, fun _ => rfl⟩
      · next hsome => rw [hparent] at hsome; cases hsome
  | case3 seen name hseen parent hparent ih =>
      rw [climbs, dif_neg hseen, ends_parent_iff hparent]
      split
      · next hnone => rw [hparent] at hnone; cases hnone
      · next hsome =>
          cases hparent.symm.trans hsome
          exact ih (h.step hparent)

theorem reachesRoot_iff_ancestor? {fuel : Nat} :
    c.reachesRoot fuel name = true ↔ c.ancestor? fuel name = none := by
  induction fuel generalizing name with
  | zero => simp [reachesRoot, ancestor?]
  | succ fuel ih =>
      rw [reachesRoot, ancestor?]
      cases c.parentOf name with
      | none => simp
      | some above => exact ih

/-- A bound that is larger than the number of resources left does not show. -/
theorem reachesRoot_of_ends {seen : List String} {fuel : Nat} (h : c.Below seen name)
    (hfuel : c.unseen seen < fuel) (hends : c.Ends name) : c.reachesRoot fuel name = true := by
  induction fuel generalizing seen name with
  | zero => exact absurd hfuel (Nat.not_lt_zero _)
  | succ fuel ih =>
      rw [reachesRoot]
      cases hparent : c.parentOf name with
      | none => rfl
      | some above =>
          have hnew : name ∉ seen := by
            intro hseen
            obtain ⟨j, hj, hback⟩ := h name hseen
            exact not_ends_of_above_itself hj hback hends
          have hfewer := unseen_lt hnew hparent
          exact ih (h.step hparent) (by omega) ((ends_parent_iff hparent).mp hends)

theorem reachesRoot_iff : c.reachesRoot (c.resources.length + 1) name = true ↔ c.Ends name := by
  refine ⟨fun h => ⟨_, reachesRoot_iff_ancestor?.mp h⟩, reachesRoot_of_ends below_nil ?_⟩
  have hcard := List.toFinset_card_le (c.resources.map (·.name))
  rw [List.length_map] at hcard
  simpa [unseen] using Nat.lt_succ_of_le hcard

/-- The walk without a bound comes to what the bounded one comes to. -/
theorem climbs_eq_reachesRoot (c : Config) (name : String) :
    c.climbs [] name = c.reachesRoot (c.resources.length + 1) name :=
  Bool.eq_iff_iff.mpr ((climbs_iff below_nil).trans reachesRoot_iff.symm)

/-! ## Forests -/

/-- Going from parent to parent comes to a resource that has none. -/
inductive Rooted (c : Config) : ResourceEntry → Prop
  | top {r : ResourceEntry} (hparent : r.parent = none) : Rooted c r
  | under {r above : ResourceEntry} (hparent : r.parent = some above.name)
    (habove : above ∈ c.resources) (h : Rooted c above) : Rooted c r

/-- What a resource has to be whatever the others are. -/
structure Sound (r : ResourceEntry) : Prop where
  named : ∃ ch ∈ r.name.toList, Text.isBlank ch = false
  segment : ∀ ch ∈ ['/', '\x7b', ':'], ch ∉ r.name.toList
  keyed : r.primaryKey ≠ ""
  guarded : ∀ strategy ∈ r.access.strategies, Text.upper strategy.1 ∈ guardableMethods

structure IsForest (c : Config) : Prop where
  sound : ∀ r ∈ c.resources, Sound r
  unique : (c.resources.map (·.name)).Nodup
  parents : ∀ r ∈ c.resources, ∀ p, r.parent = some p → ∃ above ∈ c.resources, above.name = p
  rooted : ∀ r ∈ c.resources, c.Rooted r

theorem parentOf_eq (h : (c.resources.map (·.name)).Nodup) {r : ResourceEntry}
    (hr : r ∈ c.resources) : c.parentOf r.name = r.parent := by
  rw [parentOf, find?, find?_name h hr]
  rfl

theorem isSome_find?_iff : (c.find? name).isSome = true ↔ ∃ r ∈ c.resources, r.name = name := by
  simp [find?]

theorem Rooted.ends (h : (c.resources.map (·.name)).Nodup) {r : ResourceEntry}
    (hr : r ∈ c.resources) (hrooted : c.Rooted r) : c.Ends r.name := by
  induction hrooted with
  | top hparent => exact ends_of_parentOf_eq_none ((parentOf_eq h hr).trans hparent)
  | under hparent habove _ ih =>
      exact (ends_parent_iff ((parentOf_eq h hr).trans hparent)).mpr (ih habove)

/-- Where all parents are resources, a way up that ends does so at a resource without one. -/
theorem rooted_of_ends (h : (c.resources.map (·.name)).Nodup)
    (hparents : ∀ r ∈ c.resources, ∀ p, r.parent = some p → ∃ above ∈ c.resources, above.name = p)
    {r : ResourceEntry} (hr : r ∈ c.resources) (hends : c.Ends r.name) : c.Rooted r := by
  obtain ⟨k, hk⟩ := hends
  induction k generalizing r with
  | zero => cases hk
  | succ k ih =>
      rw [ancestor?, parentOf_eq h hr] at hk
      cases hparent : r.parent with
      | none => exact .top hparent
      | some p =>
          rw [hparent] at hk
          obtain ⟨above, habove, rfl⟩ := hparents r hr p hparent
          exact .under hparent habove (ih habove hk)

/-! ## What the checks accept -/

theorem sound_iff {r : ResourceEntry} :
    Sound r ↔ Text.isAllBlank r.name = false ∧ isSegment r.name = true ∧ r.primaryKey ≠ "" ∧
      (r.access.strategies.find? fun s => !guardableMethods.contains (Text.upper s.1)) = none := by
  constructor
  · rintro ⟨hnamed, hsegment, hkeyed, hguarded⟩
    refine ⟨?_, ?_, hkeyed, ?_⟩
    · simpa [Text.isAllBlank] using hnamed
    · simpa [isSegment, Text.has, and_assoc] using hsegment
    · simpa [List.find?_eq_none] using hguarded
  · rintro ⟨hblank, hsegment, hkeyed, hguarded⟩
    refine ⟨?_, ?_, hkeyed, ?_⟩
    · simpa [Text.isAllBlank] using hblank
    · simpa [isSegment, Text.has, and_assoc] using hsegment
    · simpa [List.find?_eq_none] using hguarded

theorem guard_eq_ok {ε α : Type} {p : Prop} [Decidable p] {e : ε} {rest : Except ε α} {a : α} :
    (if p then (do (throw e : Except ε PUnit); rest) else rest) = .ok a ↔ ¬ p ∧ rest = .ok a := by
  by_cases h : p
  · rw [if_pos h]
    exact ⟨nofun, fun hp => absurd h hp.1⟩
  · rw [if_neg h]
    exact ⟨fun hrest => ⟨h, hrest⟩, And.right⟩

theorem guard_eq_error {ε α : Type} {p : Prop} [Decidable p] {e e' : ε} {rest : Except ε α} :
    (if p then (do (throw e : Except ε PUnit); rest) else rest) = .error e' ↔
      p ∧ e = e' ∨ ¬ p ∧ rest = .error e' := by
  by_cases h : p
  · rw [if_pos h]
    exact ⟨fun hrest => .inl ⟨h, Except.error.inj hrest⟩, fun hor => by
      rcases hor with ⟨-, rfl⟩ | ⟨hnot, -⟩
      · rfl
      · exact absurd h hnot⟩
  · rw [if_neg h]
    exact ⟨fun hrest => .inr ⟨h, hrest⟩, fun hor => hor.elim (fun hp => absurd hp.1 h) And.right⟩

theorem checkResource_iff {earlier : List String} {r : ResourceEntry} :
    checkResource earlier r = .ok () ↔ Sound r ∧ r.name ∉ earlier := by
  simp only [checkResource, guard_eq_ok, sound_iff]
  cases r.access.strategies.find? fun s => !guardableMethods.contains (Text.upper s.1) with
  | none =>
      simp [pure, Except.pure]
      tauto
  | some s => simp [throw, throwThe, MonadExceptOf.throw]

theorem checkResources_iff {earlier : List String} {rs : List ResourceEntry} :
    checkResources earlier rs = .ok () ↔
      (∀ r ∈ rs, Sound r ∧ r.name ∉ earlier) ∧ (rs.map (·.name)).Nodup := by
  induction rs generalizing earlier with
  | nil => simp [checkResources]
  | cons r rs ih =>
      have hstep : checkResources earlier (r :: rs) = .ok () ↔
          checkResource earlier r = .ok () ∧ checkResources (r.name :: earlier) rs = .ok () :=
        bind_eq_ok.trans ⟨fun ⟨_, hr, hrs⟩ => ⟨hr, hrs⟩, fun ⟨hr, hrs⟩ => ⟨(), hr, hrs⟩⟩
      rw [hstep, checkResource_iff, ih, List.forall_mem_cons, List.map_cons, List.nodup_cons]
      -- That no later name is this one is said of the names before each and of the names as a list.
      constructor
      · rintro ⟨hr, hrs, hnodup⟩
        refine ⟨⟨hr, fun r' hr' => ?_⟩, fun hmem => ?_, hnodup⟩
        · exact ⟨(hrs r' hr').1, fun h => (hrs r' hr').2 (List.mem_cons_of_mem _ h)⟩
        · obtain ⟨r', hr', hname⟩ := List.mem_map.mp hmem
          exact (hrs r' hr').2 (hname ▸ List.mem_cons_self)
      · rintro ⟨⟨hr, hrs⟩, hnew, hnodup⟩
        refine ⟨hr, fun r' hr' => ⟨(hrs r' hr').1, fun h => ?_⟩, hnodup⟩
        rcases List.mem_cons.mp h with hname | h
        · exact hnew (hname ▸ List.mem_map_of_mem hr')
        · exact (hrs r' hr').2 h

theorem checkParent_iff {r : ResourceEntry} :
    c.checkParent r = .ok () ↔
      (∀ p, r.parent = some p → ∃ above ∈ c.resources, above.name = p) ∧ c.Ends r.name := by
  rw [← reachesRoot_iff, checkParent]
  cases hparent : r.parent with
  | none =>
      cases c.reachesRoot (c.resources.length + 1) r.name <;>
        simp [throw, throwThe, MonadExceptOf.throw, pure, Except.pure]
  | some p =>
      have hfound : (c.find? p).isSome = true ↔ _ := isSome_find?_iff
      cases hfind : c.find? p <;> cases c.reachesRoot (c.resources.length + 1) r.name <;>
        simp_all [throw, throwThe, MonadExceptOf.throw, pure, Except.pure, bind, Except.bind]

theorem forM_iff {ε α : Type} {f : α → Except ε Unit} {as : List α} :
    as.forM f = .ok () ↔ ∀ a ∈ as, f a = .ok () := by
  refine ⟨forM_eq_ok, fun h => ?_⟩
  induction as with
  | nil => rfl
  | cons a as ih =>
      obtain ⟨ha, has⟩ := List.forall_mem_cons.mp h
      exact bind_eq_ok.mpr ⟨(), ha, ih has⟩

theorem check_iff_isForest (c : Config) : c.check = .ok () ↔ c.IsForest := by
  have hcheck : c.check = .ok () ↔ checkResources [] c.resources = .ok () ∧
      c.resources.forM c.checkParent = .ok () :=
    bind_eq_ok.trans ⟨fun ⟨_, hr, hp⟩ => ⟨hr, hp⟩, fun ⟨hr, hp⟩ => ⟨(), hr, hp⟩⟩
  rw [hcheck, checkResources_iff, forM_iff]
  constructor
  · rintro ⟨⟨hsound, hnodup⟩, hparents⟩
    have hconfigured := fun r hr => (checkParent_iff.mp (hparents r hr)).1
    refine ⟨fun r hr => (hsound r hr).1, hnodup, hconfigured, fun r hr => ?_⟩
    exact rooted_of_ends hnodup hconfigured hr (checkParent_iff.mp (hparents r hr)).2
  · rintro ⟨hsound, hnodup, hconfigured, hrooted⟩
    refine ⟨⟨fun r hr => ⟨hsound r hr, List.not_mem_nil⟩, hnodup⟩, fun r hr => ?_⟩
    exact checkParent_iff.mpr ⟨hconfigured r hr, (hrooted r hr).ends hnodup hr⟩

/-! ## Cycles -/

theorem forM_eq_error {ε α : Type} {f : α → Except ε Unit} {as : List α} {e : ε}
    (h : as.forM f = .error e) : ∃ a ∈ as, f a = .error e := by
  induction as with
  | nil => cases h
  | cons a as ih =>
      rcases bind_eq_error.mp h with ha | ⟨-, -, has⟩
      · exact ⟨a, List.mem_cons_self, ha⟩
      · obtain ⟨b, hb, hfb⟩ := ih has
        exact ⟨b, List.mem_cons_of_mem a hb, hfb⟩

theorem checkResource_ne_cycle {earlier : List String} {r : ResourceEntry} {n : String} :
    checkResource earlier r ≠ .error (.cycle n) := by
  simp only [checkResource, Ne, guard_eq_error, reduceCtorEq, and_false, false_or, not_and]
  intro _ _ _ _ h
  split at h <;> cases h

theorem checkResources_ne_cycle {earlier : List String} {rs : List ResourceEntry} {n : String} :
    checkResources earlier rs ≠ .error (.cycle n) := by
  induction rs generalizing earlier with
  | nil => nofun
  | cons r rs ih =>
      intro h
      rcases bind_eq_error.mp h with hr | ⟨-, -, hrs⟩
      · exact checkResource_ne_cycle hr
      · exact ih hrs

theorem checkParent_eq_cycle {r : ResourceEntry} {n : String}
    (h : c.checkParent r = .error (.cycle n)) : r.name = n ∧ ¬ c.Ends r.name := by
  rw [← reachesRoot_iff]
  rw [checkParent] at h
  cases hroot : c.reachesRoot (c.resources.length + 1) r.name with
  | true =>
      rw [hroot] at h
      split at h
      · split at h <;> cases h
      · cases h
  | false =>
      rw [hroot] at h
      split at h
      · split at h <;> cases h
        exact ⟨rfl, Bool.false_ne_true⟩
      · cases h
        exact ⟨rfl, Bool.false_ne_true⟩

/-- Everything on a way up without an end is a resource with a parent. -/
theorem ancestor?_of_not_ends (h : ¬ c.Ends name) (k : Nat) :
    ∃ above ∈ c.resources, c.ancestor? k name = some above.name ∧
      (c.parentOf above.name).isSome = true := by
  cases hk : c.ancestor? k name with
  | none => exact absurd ⟨k, hk⟩ h
  | some above =>
      cases hparent : c.parentOf above with
      | none =>
          have hend : c.ancestor? 1 above = none := by rw [ancestor?, hparent]; rfl
          have hnext := c.ancestor?_add k 1 name
          rw [hk, Option.bind_some, hend] at hnext
          exact absurd ⟨k + 1, hnext⟩ h
      | some p =>
          obtain ⟨r, hr, rfl⟩ := List.mem_map.mp (mem_names_of_parentOf hparent)
          exact ⟨r, hr, rfl, by rw [hparent]; rfl⟩

/-- The checks accept a configuration exactly if it is a forest. When they report a cycle, the way
up from the reported resource never comes to one without a parent. For that they need not know
how long a way up can be. -/
theorem check_accepts_forests (c : Config) :
    (c.check = .ok () ↔ c.IsForest) ∧
    (∀ n, c.check = .error (.cycle n) → ∃ r ∈ c.resources, r.name = n ∧ ¬ c.Rooted r ∧
      ∀ k, ∃ above ∈ c.resources, c.ancestor? k n = some above.name ∧
        above.parent.isSome = true) ∧
    ∀ name, c.climbs [] name = c.reachesRoot (c.resources.length + 1) name := by
  refine ⟨check_iff_isForest c, fun n h => ?_, climbs_eq_reachesRoot c⟩
  rcases bind_eq_error.mp h with hresources | ⟨⟨⟩, hresources, hparents⟩
  · exact absurd hresources checkResources_ne_cycle
  · have hnodup := (checkResources_iff.mp hresources).2
    obtain ⟨r, hr, hcycle⟩ := forM_eq_error hparents
    obtain ⟨rfl, hends⟩ := checkParent_eq_cycle hcycle
    refine ⟨r, hr, rfl, fun hrooted => hends (hrooted.ends hnodup hr), fun k => ?_⟩
    obtain ⟨above, habove, hk, hparent⟩ := ancestor?_of_not_ends hends k
    exact ⟨above, habove, hk, by rwa [parentOf_eq hnodup habove] at hparent⟩

/-- A grandchild that comes before its root is accepted. A resource that is not part of a ring but
below it is reported if it comes first. -/
theorem check_accepts_forests_ring :
    let forest : Config := ⟨"", [{ name := "notes", parent := some "tasks" },
      { name := "tasks", parent := some "projects",
        access := { strategies := [("Get", "roles")] } }, { name := "projects" }]⟩
    let ring : Config := ⟨"", [{ name := "notes", parent := some "tasks" },
      { name := "tasks", parent := some "projects" },
      { name := "projects", parent := some "tasks" }]⟩
    forest.IsForest ∧ ring.check = .error (.cycle "notes") ∧
      ∀ k, ∃ above ∈ ring.resources, ring.ancestor? k "notes" = some above.name ∧
        above.parent.isSome = true := by
  intro forest ring
  have hcycle : ring.check = .error (.cycle "notes") := by decide +kernel
  obtain ⟨-, -, -, -, hforever⟩ := (check_accepts_forests ring).2.1 "notes" hcycle
  exact ⟨(check_accepts_forests forest).1.mp (by decide +kernel), hcycle, hforever⟩

end Grove.Config
