import Grove.Proofs.Steward.Keys

/-!
# What a removal is to take away

A removal takes away the records that its criteria select, and with a record the records of
the children that belong to it, where the child asks for that. `Cascade.Condemned` says this
of the archive as it was before, whichever way the removal then goes about it.

A removal that is not finished has emptied some names of what was condemned there and left
the others as they were. It is halfway in the right order (`Cascade.Halfway`) when nothing
is gone of a resource whose children have not been emptied. Everything a removal does goes
on from there by emptying further names (`Cascade.Onward`), and a name that is empty of what
was condemned stays so.
-/

namespace Grove

/-- Records of the child are removed with the records of the parent that they belong to. -/
structure Forest.Cascades (t : Forest) (parent child : Resource) : Prop where
  above : t.get? parent.name = some parent
  below : t.get? child.name = some child
  parent : child.parent = some parent.name
  cascades : child.cascadeDelete = true

theorem Forest.Cascades.parent_eq {t : Forest} {parent parent' child : Resource}
    (h : t.Cascades parent child) (h' : t.Cascades parent' child) : parent' = parent := by
  have habove := h'.above
  rw [← Option.some.inj (h.parent.symm.trans h'.parent), h.above] at habove
  exact (Option.some.inj habove).symm

/-- The record has the owner's key in the field that is mapped to the parent's records. -/
def Resource.Owns (parent child : Resource) (owner record : Record) : Prop :=
  ∃ key, owner.get? parent.keys.primaryKey = some key ∧
    Json.equalField (Matcher.fieldAt record
      (Text.split '.' (child.fieldOf (Resource.keyParam parent.name)))) key = true

/-- The resource is the root or is reached from it through children that ask to be emptied. -/
inductive Forest.Reaches (t : Forest) (root : String) : String → Prop
  | self : Reaches t root root
  | step {parent child : Resource} : Reaches t root parent.name → t.Cascades parent child →
      Reaches t root child.name

/-- A removal that is to be made, and the archive before it. -/
structure Cascade where
  tree : Forest
  before : Archive
  root : String
  criteria : Option Criteria

namespace Cascade

variable {k : Cascade} {name : String} {r : Record} {parent child : Resource}

/-- The record is to be removed from the resource of that name. -/
inductive Condemned (k : Cascade) : String → Record → Prop
  | selected {m : Matcher} {r : Record} (compiled : Matcher.ofCriteria k.criteria = .ok m)
      (stored : r ∈ (k.before.collection k.root).records) (accepted : m.accepts r = true) :
      Condemned k k.root r
  | belonging {parent child : Resource} {owner r : Record} (link : k.tree.Cascades parent child)
      (condemned : Condemned k parent.name owner)
      (stored : r ∈ (k.before.collection child.name).records)
      (owned : parent.Owns child owner r) : Condemned k child.name r

theorem stored_of_condemned (h : k.Condemned name r) :
    r ∈ (k.before.collection name).records := by
  cases h with
  | selected compiled stored accepted => exact stored
  | belonging link condemned stored owned => exact stored

theorem reaches_of_condemned (h : k.Condemned name r) : k.tree.Reaches k.root name := by
  induction h with
  | selected compiled stored accepted => exact .self
  | belonging link condemned stored owned ih => exact .step ih link

/-- What is held under the name when all that is condemned there is gone. -/
noncomputable def cleared (k : Cascade) (name : String) : Holding :=
  (k.before.holding name).without (k.Condemned name)

theorem condemned_iff : k.Condemned name r ↔
    r ∈ (k.before.collection name).records ∧ r ∉ (k.cleared name).collection.records := by
  constructor
  · intro h
    exact ⟨stored_of_condemned h, fun hkept => (Collection.mem_records_without.mp hkept).2 h⟩
  · rintro ⟨hstored, hgone⟩
    exact Classical.byContradiction fun hnot =>
      hgone (Collection.mem_records_without.mpr ⟨hstored, hnot⟩)

theorem cleared_eq_before (h : ∀ r, ¬ k.Condemned name r) :
    k.cleared name = k.before.holding name :=
  Holding.without_of_forall_not fun r _ => h r

/-! ## Condemned by the root or through the parent -/

/-- A resource other than the root loses records only through its parent. -/
theorem condemned_child (h : k.tree.Cascades parent child) (hroot : child.name ≠ k.root) :
    k.Condemned child.name r ↔ r ∈ (k.before.collection child.name).records ∧
      ∃ owner, k.Condemned parent.name owner ∧ parent.Owns child owner r := by
  constructor
  · intro hr
    generalize hname : child.name = name at hr
    cases hr with
    | selected compiled stored accepted => exact absurd hname hroot
    | @belonging parent' child' owner r link condemned stored owned =>
        have hchild : child = child' := by
          have hbelow := h.below
          rw [hname, link.below] at hbelow
          exact (Option.some.inj hbelow).symm
        subst hchild
        obtain rfl := link.parent_eq h
        exact ⟨stored, owner, condemned, owned⟩
  · rintro ⟨hstored, owner, howner, howns⟩
    exact .belonging h howner hstored howns

section Ranked

variable {rank : String → Nat} (hrank : k.tree.Ranks rank)

include hrank

theorem rank_lt_of_cascades (h : k.tree.Cascades parent child) :
    rank parent.name < rank child.name :=
  hrank child (Forest.mem_of_get? h.below).1 parent.name h.parent

theorem rank_root_le_of_reaches (h : k.tree.Reaches k.root name) : rank k.root ≤ rank name := by
  induction h with
  | self => exact Nat.le_refl _
  | step _ link ih => exact Nat.le_trans ih (Nat.le_of_lt (rank_lt_of_cascades hrank link))

/-- The root is not below what it reaches. -/
theorem name_ne_root (hreach : k.tree.Reaches k.root parent.name)
    (h : k.tree.Cascades parent child) : child.name ≠ k.root := by
  intro hname
  have hle := rank_root_le_of_reaches hrank hreach
  have hlt := rank_lt_of_cascades hrank h
  rw [hname] at hlt
  omega

theorem condemned_root : k.Condemned k.root r ↔ r ∈ (k.before.collection k.root).records ∧
    ∃ m, Matcher.ofCriteria k.criteria = .ok m ∧ m.accepts r = true := by
  constructor
  · intro h
    generalize hname : k.root = name at h
    cases h with
    | selected compiled stored accepted => exact ⟨stored, _, compiled, accepted⟩
    | belonging link condemned stored owned =>
        exact absurd hname.symm (name_ne_root hrank (reaches_of_condemned condemned) link)
  · rintro ⟨hstored, m, hm, haccepts⟩
    exact .selected hm hstored haccepts

end Ranked

/-! ## Going on -/

/-- Names that are free may have been emptied, and else nothing is different. -/
structure Onward (k : Cascade) (free : String → Prop) (p q : Archive) : Prop where
  holding : ∀ name, q.holding name = p.holding name ∨ (free name ∧ q.holding name = k.cleared name)
  refusal : q.refusal = p.refusal

namespace Onward

variable {free free' : String → Prop} {p q q' : Archive}

theorem refl (p : Archive) : k.Onward free p p := ⟨fun _ => .inl rfl, rfl⟩

theorem trans (h : k.Onward free p q) (h' : k.Onward free q q') : k.Onward free p q' where
  holding name := by
    rcases h'.holding name with heq | hcleared
    · rw [heq]
      exact h.holding name
    · exact .inr hcleared
  refusal := h'.refusal.trans h.refusal

theorem mono (h : k.Onward free p q) (hfree : ∀ name, free name → free' name) :
    k.Onward free' p q :=
  ⟨fun name => (h.holding name).imp_right fun hname => ⟨hfree name hname.1, hname.2⟩, h.refusal⟩

theorem unchanged (h : k.Onward free p q) (hname : ¬ free name) :
    q.holding name = p.holding name :=
  (h.holding name).resolve_right fun hfree => hname hfree.1

theorem stays_cleared (h : k.Onward free p q) (hname : p.holding name = k.cleared name) :
    q.holding name = k.cleared name := by
  rcases h.holding name with heq | hcleared
  · rw [heq, hname]
  · exact hcleared.2

end Onward

/-- Some names are emptied of what is condemned there and the others are as they were, and
nothing is gone of a resource but after what depends on it. -/
structure Halfway (k : Cascade) (p : Archive) : Prop where
  partly : k.Onward (fun _ => True) k.before p
  ordered : ∀ parent child, k.tree.Cascades parent child →
    p.holding parent.name = k.before.holding parent.name ∨
    p.holding child.name = k.cleared child.name

theorem halfway_before : k.Halfway k.before := ⟨.refl _, fun _ _ _ => .inl rfl⟩

/-- When the root is emptied everything is. -/
theorem Halfway.finished {p : Archive} (hp : k.Halfway p)
    (hroot : p.holding k.root = k.cleared k.root) (name : String) :
    p.holding name = k.cleared name := by
  have hcondemned : ∀ r, k.Condemned name r → p.holding name = k.cleared name := by
    intro r hr
    induction hr with
    | selected compiled stored accepted => exact hroot
    | @belonging parent child owner r link condemned stored owned ih =>
        refine (hp.ordered parent child link).resolve_left fun huntouched => ?_
        -- the owner is gone, so its resource is not as it was
        obtain ⟨hstored, hgone⟩ := condemned_iff.mp condemned
        have hcollection : k.before.collection parent.name = (k.cleared parent.name).collection :=
          congrArg Holding.collection (huntouched.symm.trans ih)
        exact hgone (hcollection ▸ hstored)
  by_cases hsome : ∃ r, k.Condemned name r
  · exact hsome.elim hcondemned
  · have hnone := cleared_eq_before (not_exists.mp hsome)
    rcases hp.partly.holding name with heq | hcleared
    · rw [heq, hnone]
    · exact hcleared.2

/-- Where a record is gone, nothing is left that belonged to it. -/
theorem Halfway.not_owned {p : Archive} (hp : k.Halfway p) (link : k.tree.Cascades parent child)
    {owner : Record} (howner : owner ∈ (k.before.collection parent.name).records)
    (hgone : owner ∉ (p.collection parent.name).records)
    (hr : r ∈ (p.collection child.name).records) : ¬ parent.Owns child owner r := by
  have htouched : p.holding parent.name ≠ k.before.holding parent.name := by
    intro heq
    have hcollection : p.collection parent.name = k.before.collection parent.name :=
      congrArg Holding.collection heq
    exact hgone (hcollection ▸ howner)
  have hparent : p.collection parent.name = (k.cleared parent.name).collection :=
    congrArg Holding.collection ((hp.partly.holding parent.name).resolve_left htouched).2
  have hchild : p.collection child.name = (k.cleared child.name).collection :=
    congrArg Holding.collection ((hp.ordered parent child link).resolve_left htouched)
  have hcondemned : k.Condemned parent.name owner := condemned_iff.mpr ⟨howner, hparent ▸ hgone⟩
  intro howns
  obtain ⟨hstored, hkept⟩ := Collection.mem_records_without.mp (hchild ▸ hr)
  exact hkept (.belonging link hcondemned hstored howns)

/-! ## Criteria that aim at what is condemned -/

/-- The criteria select what is condemned of that name, and nothing else. -/
def Aims (k : Cascade) (c : Option Criteria) (name : String) : Prop :=
  ∀ m, Matcher.ofCriteria c = .ok m →
    ∀ r ∈ (k.before.collection name).records, m.accepts r = true ↔ k.Condemned name r

open Classical in
noncomputable def lost (k : Cascade) (name : String) : List Record :=
  (k.before.collection name).records.filter fun r => k.Condemned name r

noncomputable def lostKeys (k : Cascade) (r : Resource) : List Json :=
  (k.lost r.name).filterMap (·.get? r.keys.primaryKey)

noncomputable def criteriaBelow (k : Cascade) (parent child : Resource) : Option Criteria :=
  some (Steward.belongingTo (Service.childRef parent child) (k.lostKeys parent))

open Classical in
theorem mem_lost : r ∈ k.lost name ↔ k.Condemned name r := by
  rw [lost, List.mem_filter, decide_eq_true_eq]
  exact ⟨And.right, fun h => ⟨stored_of_condemned h, h⟩⟩

section Aims

variable {c : Option Criteria} {m : Matcher} {p : Archive}
  (haims : k.Aims c name) (hm : Matcher.ofCriteria c = .ok m)

include haims hm

open Classical in
/-- Where nothing is gone yet, what is condemned is selected. -/
theorem matching_of_untouched (h : p.holding name = k.before.holding name) :
    (p.collection name).matching m = k.lost name := by
  have hcollection : p.collection name = k.before.collection name := congrArg Holding.collection h
  rw [hcollection, Collection.matching, lost]
  refine List.filter_congr fun r hr => ?_
  rw [Bool.eq_iff_iff, decide_eq_true_eq]
  exact haims m hm r hr

/-- Where everything condemned is gone, nothing is selected any more. -/
theorem matching_of_cleared (h : p.holding name = k.cleared name) :
    (p.collection name).matching m = [] := by
  have hcollection : p.collection name = (k.cleared name).collection :=
    congrArg Holding.collection h
  rw [hcollection, Collection.matching, List.filter_eq_nil_iff]
  intro r hr haccepts
  obtain ⟨hstored, hnot⟩ := Collection.mem_records_without.mp hr
  exact hnot ((haims m hm r hstored).mp haccepts)

/-- Removing what is selected empties the name, whether or not that was done before. -/
theorem without_accepted (h : k.Halfway p) :
    (p.holding name).without (fun r => m.accepts r = true) = k.cleared name := by
  rcases h.partly.holding name with heq | ⟨-, hcleared⟩
  · rw [heq, cleared]
    exact Holding.without_congr (haims m hm)
  · have hnothing := matching_of_cleared haims hm hcleared
    rw [Holding.without_of_forall_not, hcleared]
    intro r hr
    exact List.filter_eq_nil_iff.mp hnothing r hr

end Aims

theorem aims_root {rank : String → Nat} (hrank : k.tree.Ranks rank) :
    k.Aims k.criteria k.root := by
  intro m hm r hr
  rw [condemned_root hrank]
  constructor
  · intro haccepts
    exact ⟨hr, m, hm, haccepts⟩
  · rintro ⟨-, m', hm', haccepts⟩
    cases hm.symm.trans hm'
    exact haccepts

section Child

variable (h : k.tree.Cascades parent child) (hroot : child.name ≠ k.root)

include h hroot

/-- The records of a child that have one of the lost keys are the ones condemned. -/
theorem aims_below : k.Aims (k.criteriaBelow parent child) child.name := by
  intro m hm r hr
  have hfield : (Service.childRef parent child).field =
      child.fieldOf (Resource.keyParam parent.name) := by
    rw [Service.childRef, Resource.ownerField, h.parent]
    rfl
  rw [Steward.accepts_belongingTo hm, hfield, List.any_eq_true, condemned_child h hroot]
  constructor
  · rintro ⟨key, hkey, hequal⟩
    obtain ⟨owner, howner, hget⟩ := List.mem_filterMap.mp hkey
    exact ⟨hr, owner, mem_lost.mp howner, key, hget, hequal⟩
  · rintro ⟨-, owner, howner, key, hget, hequal⟩
    exact ⟨key, List.mem_filterMap.mpr ⟨owner, mem_lost.mpr howner, hget⟩, hequal⟩

/-- Without lost keys nothing is condemned in the child. -/
theorem cleared_of_lostKeys_eq_nil (hlost : k.lostKeys parent = []) :
    k.cleared child.name = k.before.holding child.name := by
  refine cleared_eq_before fun r hr => ?_
  obtain ⟨-, owner, howner, key, hget, -⟩ := (condemned_child h hroot).mp hr
  have hkey : key ∈ k.lostKeys parent := List.mem_filterMap.mpr ⟨owner, mem_lost.mpr howner, hget⟩
  rw [hlost] at hkey
  exact absurd hkey List.not_mem_nil

end Child

end Cascade

end Grove
