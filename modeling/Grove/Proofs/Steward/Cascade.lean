import Mathlib.Data.List.Basic
import Grove.Proofs.Steward.Condemned

/-!
# What a removal takes away

A removal goes from a resource to its children and comes back to the resource last. So in
whatever state it ends, and at whatever call it fails, it leaves the archive halfway in the
right order (`remove_removed`). Two things carry the induction over the stewards. The keys
that are read from a resource are those of all that is condemned there, since nothing is
gone of it before its children are done; and what is done below a resource does not reach
it, because ranks grow on the way down.

A removal that ends well has emptied its own resource, and then there is nothing left to do
anywhere: everything condemned is gone and nothing else (`remove_takes_dependents`).
-/

namespace Grove

namespace Cascade

/-- What a removal from a resource has done when it ends, well or not. -/
structure Removed (k : Cascade) (rank : String → Nat) (name : String) (c : Option Criteria)
    (p q : Archive) (result : Except Failure Nat) : Prop where
  halfway : k.Halfway q
  onward : k.Onward (fun other => other = name ∨ rank name < rank other) p q
  failed : ∀ f, result = .error f → q.holding name = p.holding name
  done : ∀ n, result = .ok n → q.holding name = k.cleared name ∧
    ∃ m, Matcher.ofCriteria c = .ok m ∧ n = ((p.collection name).matching m).length

/-- What a removal from some resources below a name has done when it ends, well or not. -/
structure Emptied (k : Cascade) (rank : String → Nat) (name : String) (below : Resource → Prop)
    (p q : Archive) (result : Except Failure Unit) : Prop where
  halfway : k.Halfway q
  onward : k.Onward (fun other => rank name < rank other) p q
  done : result = .ok () → ∀ child, below child → q.holding child.name = k.cleared child.name

/-- The offsets suffice to read the keys of all that is condemned. -/
def Readable (k : Cascade) (name : String) : Prop :=
  (k.lost name).length < Steward.windowsOfRange * Window.largestSize

end Cascade

namespace Steward

def Listed (children : List (ChildRef × Steward DocumentStore)) (child : Resource) : Prop :=
  ∃ below ∈ children, below.1.cascades = true ∧ below.2.resource = child

theorem listed_cons {link : ChildRef} {below : Steward DocumentStore}
    {rest : List (ChildRef × Steward DocumentStore)} {child : Resource} :
    Listed ((link, below) :: rest) child ↔
      (link.cascades = true ∧ below.resource = child) ∨ Listed rest child :=
  List.exists_mem_cons_iff _ _ _

theorem not_listed_of_any_eq_false {children : List (ChildRef × Steward DocumentStore)}
    (h : children.any (·.1.cascades) = false) (child : Resource) : ¬ Listed children child := by
  rintro ⟨below, hmem, hcascades, -⟩
  rw [List.any_eq_true.mpr ⟨below, hmem, hcascades⟩] at h
  cases h

variable {σ : Type} {b : Backend σ DocumentStore} {archive : σ → Archive}

/-- The stewards are those of children of the resource, and the links to them are right. -/
structure Links (t : Forest) (r : Resource) (children : List (ChildRef × Steward DocumentStore)) :
    Prop where
  placed : t.get? r.name = some r
  below : ∀ below ∈ children, below.1 = Service.childRef r below.2.resource ∧
    below.2.resource.parent = some r.name
  complete : ∀ below ∈ children, below.2.Complete .ofResource t

section Links

variable {t : Forest} {r : Resource} {children : List (ChildRef × Steward DocumentStore)}

theorem Links.cascades (h : Links t r children) {below : ChildRef × Steward DocumentStore}
    (hmem : below ∈ children) (hcascades : below.1.cascades = true) :
    t.Cascades r below.2.resource := by
  obtain ⟨hlink, hparent⟩ := h.below below hmem
  rw [hlink] at hcascades
  exact ⟨h.placed, (h.complete below hmem).placed, hparent, hcascades⟩

theorem Links.tail {below : ChildRef × Steward DocumentStore} (h : Links t r (below :: children)) :
    Links t r children :=
  ⟨h.placed, fun below hmem => h.below below (List.mem_cons_of_mem _ hmem),
    fun below hmem => h.complete below (List.mem_cons_of_mem _ hmem)⟩

end Links

section Complete

variable {t : Forest} {r : Resource} {store : DocumentStore}
  {parent : Option (ParentRef DocumentStore)} {children : List (ChildRef × Steward DocumentStore)}
  (h : (Steward.mk r store parent children).Complete .ofResource t)

include h

theorem Complete.links : Links t r children := by
  cases h with
  | mk placed below every complete => exact ⟨placed, below, complete⟩

theorem Complete.listed {child : Resource} (link : t.Cascades r child) : Listed children child := by
  cases h with
  | mk placed below every complete =>
      obtain ⟨listed, hmem, hsame⟩ := every child link.below link.parent
      refine ⟨listed, hmem, ?_, hsame⟩
      rw [(below listed hmem).1, hsame]
      exact link.cascades

end Complete

theorem removeBelow_cons {k : Cascade} {r : Resource} {link : ChildRef}
    {child : Steward DocumentStore} {rest : List (ChildRef × Steward DocumentStore)}
    (h : Links k.tree r ((link, child) :: rest)) (hcascades : link.cascades = true) :
    removeBelow b (k.lostKeys r) ((link, child) :: rest) =
      child.remove b (k.criteriaBelow r child.resource) >>= fun _ =>
        removeBelow b (k.lostKeys r) rest := by
  have hlink : link = Service.childRef r child.resource := (h.below _ List.mem_cons_self).1
  rw [removeBelow, if_pos hcascades, hlink]
  rfl

/-- Removes what depends on the records that the criteria select. -/
def clearBelow (b : Backend σ DocumentStore) (store : DocumentStore) (c : Option Criteria)
    (children : List (ChildRef × Steward DocumentStore)) : Attempt σ Unit := do
  if children.any (·.1.cascades) then
    let keys ← selectedKeys b store c
    if !keys.isEmpty then removeBelow b keys children

theorem remove_eq (r : Resource) (store : DocumentStore) (parent : Option (ParentRef DocumentStore))
    (children : List (ChildRef × Steward DocumentStore)) (c : Option Criteria) :
    (mk r store parent children).remove b c =
      clearBelow b store c children >>= fun _ => b.remove store c := by
  rw [remove, clearBelow]
  split
  · rw [bind_assoc]
    refine bind_congr fun keys => ?_
    split
    · rfl
    · rw [pure_bind]
  · rw [pure_bind]

variable {k : Cascade} {rank : String → Nat}

section

variable (hb : b.Faulty archive)

include hb

/-! ## The resource itself -/

/-- The last step of a removal, when the children have been emptied. -/
theorem remove_own {s : DocumentStore} {c : Option Criteria} (haims : k.Aims c s.collection) {u : σ}
    (hu : k.Halfway (archive u))
    (hchildren : ∀ parent child, k.tree.Cascades parent child → parent.name = s.collection →
      (archive u).holding child.name = k.cleared child.name) :
    k.Removed rank s.collection c (archive u) (archive ((b.remove s c).outcome u).2)
      ((b.remove s c).outcome u).1 := by
  have hunchanged : ∀ f, k.Removed rank s.collection c (archive u) (archive u) (.error f) :=
    fun f => ⟨hu, .refl _, fun _ _ => rfl, nofun⟩
  obtain ⟨f, hfails, hsame⟩ | ⟨hanswer, hstate⟩ := hb.remove s c u
  · rw [hfails, hsame]
    exact hunchanged f
  rw [hanswer, hstate]
  obtain ⟨f, hfails⟩ | ⟨m, q, hm, hdone, -, hown, hothers, hrefusal⟩ := s.remove_cases (archive u) c
  · rw [hfails]
    exact hunchanged f
  rw [hdone]
  have hcleared : q.holding s.collection = k.cleared s.collection := by
    rw [hown, Cascade.without_accepted haims hm hu]
  have honward : k.Onward (fun other => other = s.collection) (archive u) q := by
    refine ⟨fun name => ?_, hrefusal⟩
    by_cases hname : name = s.collection
    · exact .inr ⟨hname, by rw [hname, hcleared]⟩
    · exact .inl (hothers name hname)
  refine ⟨⟨hu.partly.trans (honward.mono fun _ _ => trivial), fun parent child link => ?_⟩,
    honward.mono fun _ => .inl, nofun, ?_⟩
  · by_cases hparent : parent.name = s.collection
    · exact .inr (honward.stays_cleared (hchildren parent child link hparent))
    · rw [honward.unchanged hparent]
      exact (hu.ordered parent child link).imp_right honward.stays_cleared
  · rintro n ⟨⟩
    exact ⟨hcleared, m, hm, rfl⟩

/-- A removal from a store that ends well has nothing against it. -/
theorem remove_eq_ok {s : DocumentStore} {c : Option Criteria} {u v : σ} {n : Nat}
    (h : (b.remove s c).outcome u = (.ok n, v)) :
    ∃ m, Matcher.ofCriteria c = .ok m ∧
      ((archive u).refusal = none ∨ ((archive u).collection s.collection).matching m = []) := by
  obtain ⟨f, hfails, -⟩ | ⟨hanswer, -⟩ := hb.remove s c u
  · rw [h] at hfails
    cases hfails
  · obtain ⟨f, hfails⟩ | ⟨m, q, hm, -, hwritable, -⟩ := s.remove_cases (archive u) c
    · rw [h, hfails] at hanswer
      cases hanswer
    · exact ⟨m, hm, hwritable⟩

theorem remove_others {s : DocumentStore} {c : Option Criteria} (u : σ) {name : String}
    (hname : name ≠ s.collection) :
    (archive ((b.remove s c).outcome u).2).holding name = (archive u).holding name := by
  obtain ⟨f, -, hsame⟩ | ⟨-, hstate⟩ := hb.remove s c u
  · rw [hsame]
  · rw [hstate]
    obtain ⟨f, hfails⟩ | ⟨m, q, -, hdone, -, -, hothers, -⟩ := s.remove_cases (archive u) c
    · rw [hfails]
    · rw [hdone]
      exact hothers name hname

/-! ## The children -/

/-- The keys that are read are those of all that is condemned, or what is condemned is gone
already and there are none. -/
theorem selectedKeys_lost {r : Resource} {c : Option Criteria} (haims : k.Aims c r.name) {u v : σ}
    (hu : k.Halfway (archive u)) {keys : List Json}
    (h : (selectedKeys b (.ofResource r) c).outcome u = (.ok keys, v)) :
    ((archive u).holding r.name = k.before.holding r.name →
      keys = k.lostKeys r ∧ k.Readable r.name) ∧
    (keys ≠ [] → (archive u).holding r.name = k.before.holding r.name) := by
  obtain ⟨m, hm, hkeys, hbound⟩ := keysFrom_eq_ok hb h
  rw [List.drop_zero] at hkeys
  rw [Nat.zero_add] at hbound
  refine ⟨fun huntouched => ?_, fun hsome => ?_⟩
  · have hmatching : ((archive u).collection (DocumentStore.ofResource r).collection).matching m =
        k.lost r.name := Cascade.matching_of_untouched haims hm huntouched
    rw [hmatching] at hkeys hbound
    exact ⟨hkeys, hbound⟩
  · refine (hu.partly.holding r.name).resolve_right fun ⟨_, hcleared⟩ => hsome ?_
    have hmatching : ((archive u).collection (DocumentStore.ofResource r).collection).matching m =
        [] := Cascade.matching_of_cleared haims hm hcleared
    rw [hkeys, hmatching, List.filterMap_nil]

/-- What emptying the children comes to. No child asks for it, or the keys cannot be read, or
there are none, or the children are gone through with the keys of what is condemned. -/
theorem clearBelow_cases {r : Resource} (children : List (ChildRef × Steward DocumentStore))
    {c : Option Criteria} (haims : k.Aims c r.name) {u : σ} (hu : k.Halfway (archive u)) :
    (children.any (·.1.cascades) = false ∧
      (clearBelow b (.ofResource r) c children).outcome u = (.ok (), u)) ∨
    (∃ f v, archive v = archive u ∧
      (clearBelow b (.ofResource r) c children).outcome u = (.error f, v)) ∨
    (∃ v, archive v = archive u ∧
      ((archive u).holding r.name = k.before.holding r.name →
        k.lostKeys r = [] ∧ k.Readable r.name) ∧
      (clearBelow b (.ofResource r) c children).outcome u = (.ok (), v)) ∨
    (∃ v, archive v = archive u ∧ k.lostKeys r ≠ [] ∧ k.Readable r.name ∧
      (clearBelow b (.ofResource r) c children).outcome u =
        (removeBelow b (k.lostKeys r) children).outcome v) := by
  rw [clearBelow]
  cases hany : children.any (·.1.cascades) with
  | false => exact .inl ⟨rfl, rfl⟩
  | true =>
      refine .inr ?_
      rw [if_pos rfl, Attempt.outcome_bind]
      have hsame : archive ((selectedKeys b (.ofResource r) c).outcome u).2 = archive u :=
        archive_keysFrom hb windowsOfRange 0 u
      rcases hkeys : (selectedKeys b (.ofResource r) c).outcome u with ⟨f | keys, v⟩ <;>
        rw [hkeys] at hsame
      · exact .inl ⟨f, v, hsame, rfl⟩
      obtain ⟨hlost, huntouched⟩ := selectedKeys_lost hb haims hu hkeys
      by_cases hsome : keys = []
      · subst hsome
        refine .inr (.inl ⟨v, hsame, fun h => ?_, rfl⟩)
        exact (hlost h).imp_left Eq.symm
      · obtain ⟨rfl, hreadable⟩ := hlost (huntouched hsome)
        have hmany : (!(k.lostKeys r).isEmpty) = true := by simpa using hsome
        refine .inr (.inr ⟨v, hsame, hsome, hreadable, ?_⟩)
        simp only [hmany, if_true]

/-- Whatever comes of it, the children are emptied in the right order. -/
theorem clearBelow_emptied {r : Resource} {children : List (ChildRef × Steward DocumentStore)}
    (hrank : k.tree.Ranks rank) (hreach : k.tree.Reaches k.root r.name)
    (hlisted : ∀ child, k.tree.Cascades r child → Listed children child)
    {c : Option Criteria} (haims : k.Aims c r.name) {u : σ} (hu : k.Halfway (archive u))
    (hbelow : ∀ v, k.Halfway (archive v) →
      k.Emptied rank r.name (Listed children) (archive v)
        (archive ((removeBelow b (k.lostKeys r) children).outcome v).2)
        ((removeBelow b (k.lostKeys r) children).outcome v).1) :
    k.Emptied rank r.name (k.tree.Cascades r) (archive u)
      (archive ((clearBelow b (.ofResource r) c children).outcome u).2)
      ((clearBelow b (.ofResource r) c children).outcome u).1 := by
  obtain ⟨hnone, hdone⟩ | ⟨f, v, hsame, hfails⟩ | ⟨v, hsame, hlost, hdone⟩ |
    ⟨v, hsame, -, -, hdone⟩ := clearBelow_cases hb children haims hu
  · rw [hdone]
    exact ⟨hu, .refl _, fun _ child link =>
      absurd (hlisted child link) (not_listed_of_any_eq_false hnone child)⟩
  · rw [hfails, hsame]
    exact ⟨hu, .refl _, nofun⟩
  · rw [hdone, hsame]
    refine ⟨hu, .refl _, fun _ child link => ?_⟩
    -- without keys nothing is condemned below, unless it is gone
    rcases hu.ordered r child link with huntouched | hcleared
    · have hnone := Cascade.cleared_of_lostKeys_eq_nil link
        (Cascade.name_ne_root hrank hreach link) (hlost huntouched).1
      rcases hu.partly.holding child.name with heq | hcleared
      · rw [heq, hnone]
      · exact hcleared.2
    · exact hcleared
  · have hemptied := hbelow v (hsame ▸ hu)
    rw [hsame] at hemptied
    rw [hdone]
    exact ⟨hemptied.halfway, hemptied.onward, fun hok child link =>
      hemptied.done hok child (hlisted child link)⟩

/-- The resource comes after its children, and what was done below has not reached it. -/
theorem remove_after {r : Resource} {parent : Option (ParentRef DocumentStore)}
    {children : List (ChildRef × Steward DocumentStore)} (placed : k.tree.get? r.name = some r)
    {c : Option Criteria} (haims : k.Aims c r.name) {u : σ}
    (hemptied : k.Emptied rank r.name (k.tree.Cascades r) (archive u)
      (archive ((clearBelow b (.ofResource r) c children).outcome u).2)
      ((clearBelow b (.ofResource r) c children).outcome u).1) :
    k.Removed rank r.name c (archive u)
      (archive (((mk r (.ofResource r) parent children).remove b c).outcome u).2)
      (((mk r (.ofResource r) parent children).remove b c).outcome u).1 := by
  rw [remove_eq, Attempt.outcome_bind]
  have hown := hemptied.onward.unchanged (Nat.lt_irrefl (rank r.name))
  rcases hclear : (clearBelow b (.ofResource r) c children).outcome u with ⟨f | ⟨⟩, v⟩ <;>
    rw [hclear] at hemptied hown
  · exact ⟨hemptied.halfway, hemptied.onward.mono fun _ => .inr, fun _ _ => hown, nofun⟩
  have hchildren : ∀ parent child, k.tree.Cascades parent child → parent.name = r.name →
      (archive v).holding child.name = k.cleared child.name := by
    intro parent child link hname
    have hparent : parent = r := by
      have habove := link.above
      rw [hname, placed] at habove
      exact (Option.some.inj habove).symm
    exact hemptied.done rfl child (hparent ▸ link)
  have hremoved : k.Removed rank r.name c (archive v)
      (archive ((b.remove (.ofResource r) c).outcome v).2)
      ((b.remove (.ofResource r) c).outcome v).1 :=
    remove_own hb (s := .ofResource r) (u := v) haims hemptied.halfway hchildren
  refine ⟨hremoved.halfway, (hemptied.onward.mono fun _ => .inr).trans hremoved.onward,
    fun f hf => (hremoved.failed f hf).trans hown, fun n hn => ?_⟩
  obtain ⟨hcleared, m, hm, hcount⟩ := hremoved.done n hn
  refine ⟨hcleared, m, hm, ?_⟩
  rw [hcount]
  exact congrArg (fun h => (h.collection.matching m).length) hown

end

/-! ## The whole way -/

mutual

/-- A removal that was begun halfway in the right order leaves off so, at whatever call it
fails, and it empties its resource if it ends well. -/
theorem remove_removed (hb : b.Faulty archive) (hrank : k.tree.Ranks rank)
    {m : Steward DocumentStore} (hm : m.Complete .ofResource k.tree)
    (hreach : k.tree.Reaches k.root m.resource.name) {c : Option Criteria}
    (haims : k.Aims c m.resource.name) {u : σ} (hu : k.Halfway (archive u)) :
    k.Removed rank m.resource.name c (archive u) (archive ((m.remove b c).outcome u).2)
      ((m.remove b c).outcome u).1 := by
  match m with
  | .mk r store parent children =>
      rw [resource] at hreach haims ⊢
      obtain rfl : store = .ofResource r := hm.store_eq
      have hlinks := hm.links
      have hemptied := clearBelow_emptied hb hrank hreach (fun _ => hm.listed) haims hu
        fun v hv => removeBelow_emptied hb hrank hreach hlinks hv
      exact remove_after hb hlinks.placed haims hemptied

theorem removeBelow_emptied (hb : b.Faulty archive) (hrank : k.tree.Ranks rank) {r : Resource}
    {children : List (ChildRef × Steward DocumentStore)} (hreach : k.tree.Reaches k.root r.name)
    (hlinks : Links k.tree r children) {u : σ} (hu : k.Halfway (archive u)) :
    k.Emptied rank r.name (Listed children) (archive u)
      (archive ((removeBelow b (k.lostKeys r) children).outcome u).2)
      ((removeBelow b (k.lostKeys r) children).outcome u).1 := by
  match children with
  | [] => exact ⟨hu, .refl _, fun _ _ ⟨_, hmem, _⟩ => absurd hmem List.not_mem_nil⟩
  | (link, child) :: rest =>
      by_cases hcascades : link.cascades = true
      · have hcascade := hlinks.cascades List.mem_cons_self hcascades
        have hcomplete := hlinks.complete _ List.mem_cons_self
        have haims := Cascade.aims_below hcascade (Cascade.name_ne_root hrank hreach hcascade)
        have hremoved := remove_removed hb hrank hcomplete (.step hreach hcascade) haims hu
        have hdeeper : ∀ other,
            other = child.resource.name ∨ rank child.resource.name < rank other →
            rank r.name < rank other := by
          have hlt := Cascade.rank_lt_of_cascades hrank hcascade
          rintro other (rfl | hother)
          · exact hlt
          · exact Nat.lt_trans hlt hother
        rw [removeBelow_cons hlinks hcascades, Attempt.outcome_bind]
        rcases hchild : (child.remove b (k.criteriaBelow r child.resource)).outcome u
          with ⟨f | n, v⟩ <;> rw [hchild] at hremoved
        · exact ⟨hremoved.halfway, hremoved.onward.mono hdeeper, nofun⟩
        have hrest := removeBelow_emptied hb hrank hreach hlinks.tail hremoved.halfway
        refine ⟨hrest.halfway, (hremoved.onward.mono hdeeper).trans hrest.onward,
          fun hok other hlisted => ?_⟩
        rcases listed_cons.mp hlisted with ⟨-, rfl⟩ | hlisted
        · exact hrest.onward.stays_cleared (hremoved.done n rfl).1
        · exact hrest.done hok other hlisted
      · have hrest := removeBelow_emptied hb hrank hreach hlinks.tail hu
        rw [removeBelow, if_neg hcascades]
        exact ⟨hrest.halfway, hrest.onward, fun hok other hlisted => hrest.done hok other
          ((listed_cons.mp hlisted).resolve_left fun hfirst => hcascades hfirst.1)⟩

end

/-- Before a resource itself comes to it, its children have been emptied. -/
theorem clearBelow_of_complete (hb : b.Faulty archive) (hrank : k.tree.Ranks rank) {r : Resource}
    {parent : Option (ParentRef DocumentStore)} {children : List (ChildRef × Steward DocumentStore)}
    (hm : (mk r (.ofResource r) parent children).Complete .ofResource k.tree)
    (hreach : k.tree.Reaches k.root r.name) {c : Option Criteria} (haims : k.Aims c r.name) {u : σ}
    (hu : k.Halfway (archive u)) :
    k.Emptied rank r.name (k.tree.Cascades r) (archive u)
      (archive ((clearBelow b (.ofResource r) c children).outcome u).2)
      ((clearBelow b (.ofResource r) c children).outcome u).1 :=
  clearBelow_emptied hb hrank hreach (fun _ => hm.listed) haims hu
    fun _ hv => removeBelow_emptied hb hrank hreach hm.links hv

/-- A removal that ends well has taken all that is condemned and nothing else. -/
theorem cleared_of_remove {t : Forest} (hrank : t.Ranks rank) {m : Steward DocumentStore}
    (hm : m.Complete .ofResource t) {c : Option Criteria} {before after : Archive} {n : Nat}
    (h : (m.remove Archive.backend c).outcome before = (.ok n, after)) :
    (∀ other, after.holding other = (Cascade.mk t before m.resource.name c).cleared other) ∧
      ∃ selected, Matcher.ofCriteria c = .ok selected ∧
        n = ((before.collection m.resource.name).matching selected).length := by
  have hremoved := remove_removed (k := ⟨t, before, m.resource.name, c⟩) Archive.backend_faulty
    hrank hm .self (Cascade.aims_root hrank) Cascade.halfway_before
  rw [h] at hremoved
  obtain ⟨hroot, hcount⟩ := hremoved.done n rfl
  exact ⟨hremoved.halfway.finished hroot, hcount⟩

/-- Of a child the records are left that belong to none of the records selected. -/
theorem mem_child_of_remove {t : Forest} (hrank : t.Ranks rank) {m : Steward DocumentStore}
    (hm : m.Complete .ofResource t) {c : Option Criteria} {before after : Archive} {n : Nat}
    (h : (m.remove Archive.backend c).outcome before = (.ok n, after)) {child : Resource}
    (link : t.Cascades m.resource child) :
    ∃ selected, Matcher.ofCriteria c = .ok selected ∧
      ∀ record, record ∈ (after.collection child.name).records ↔
        record ∈ (before.collection child.name).records ∧
        ¬ ∃ owner ∈ (before.collection m.resource.name).matching selected,
          m.resource.Owns child owner record := by
  obtain ⟨hcleared, selected, hselected, -⟩ := cleared_of_remove hrank hm h
  let k : Cascade := ⟨t, before, m.resource.name, c⟩
  have howner : ∀ owner, k.Condemned m.resource.name owner ↔
      owner ∈ (before.collection m.resource.name).matching selected := by
    intro owner
    rw [show k.Condemned m.resource.name owner ↔ _ from Cascade.condemned_root hrank,
      Collection.matching, List.mem_filter]
    refine and_congr_right fun _ => ⟨?_, fun h => ⟨selected, hselected, h⟩⟩
    rintro ⟨matcher, hmatcher, haccepts⟩
    cases hselected.symm.trans hmatcher
    exact haccepts
  refine ⟨selected, hselected, fun record => ?_⟩
  rw [show after.collection child.name = (k.cleared child.name).collection from
      congrArg Holding.collection (hcleared child.name), Cascade.cleared, Holding.without,
    Collection.mem_records_without,
    Cascade.condemned_child link (Cascade.name_ne_root (k := k) hrank .self link)]
  simp only [howner]
  exact and_congr_right fun hrecord => not_congr ⟨fun h => h.2, fun h => ⟨hrecord, h⟩⟩

end Steward

/-- A removal that ends well has taken the records that its criteria select, and from every
child that is to be emptied with its parent the records that belonged to records which the
parent has lost. Nothing else is gone, and nothing at all from where these children do not
lead. What is left is in its old order. -/
theorem remove_takes_dependents {config : Config} {t : Forest}
    (hconfig : Forest.ofConfig config = .ok t) {s u : Service Archive DocumentStore}
    (hs : Service.InUse Archive.backend t s) {name : String} {m : Steward DocumentStore}
    (hm : (Service.steward Archive.backend name).outcome s = (.ok m, u)) {c : Option Criteria}
    {before after : Archive} {n : Nat}
    (hremove : (m.remove Archive.backend c).outcome before = (.ok n, after)) :
    ∃ selected, Matcher.ofCriteria c = .ok selected ∧
      n = ((before.collection name).matching selected).length ∧
      after.holding name = (before.holding name).without (fun r => selected.accepts r = true) ∧
      (∀ parent child, t.Reaches name parent.name → t.Cascades parent child →
        after.holding child.name = (before.holding child.name).without fun r =>
          ∃ owner ∈ (before.collection parent.name).records,
            owner ∉ (after.collection parent.name).records ∧ parent.Owns child owner r) ∧
      ∀ other, ¬ t.Reaches name other → after.holding other = before.holding other := by
  have ht := Forest.sound_of_ofConfig hconfig
  obtain ⟨rank, hrank⟩ := ht.ranked
  obtain ⟨rfl, hcomplete⟩ := Service.complete_of_inUse Archive.backend_makes ht hs hm
  let k : Cascade := ⟨t, before, m.resource.name, c⟩
  obtain ⟨hcleared, selected, hselected, hcount⟩ :=
    Steward.cleared_of_remove hrank hcomplete hremove
  have hafter : ∀ other, after.holding other = k.cleared other := hcleared
  refine ⟨selected, hselected, hcount, ?_, fun parent child hreach link => ?_,
    fun other hother => ?_⟩
  · rw [hafter]
    exact Holding.without_congr fun r hr => (Cascade.aims_root hrank selected hselected r hr).symm
  · have hcollection : after.collection parent.name = (k.cleared parent.name).collection :=
      congrArg Holding.collection (hafter parent.name)
    rw [hafter, hcollection]
    refine Holding.without_congr fun r hr => ?_
    rw [Cascade.condemned_child link (Cascade.name_ne_root hrank hreach link)]
    constructor
    · rintro ⟨-, owner, howner, howns⟩
      obtain ⟨hstored, hgone⟩ := Cascade.condemned_iff.mp howner
      exact ⟨owner, hstored, hgone, howns⟩
    · rintro ⟨owner, hstored, hgone, howns⟩
      exact ⟨hr, owner, Cascade.condemned_iff.mpr ⟨hstored, hgone⟩, howns⟩
  · rw [hafter]
    exact Cascade.cleared_eq_before fun r hr => hother (Cascade.reaches_of_condemned hr)

/-! ## Projects, tasks and notes -/

/-- Projects with tasks, and tasks with notes, which go with what they belong to, and files,
which do not. -/
def boards : Config where
  resources := [{ name := "projects" },
    { name := "tasks", parent := some "projects", cascadeDelete := true },
    { name := "notes", parent := some "tasks", cascadeDelete := true },
    { name := "files", parent := some "projects" }]

def boardTree : Forest := ⟨boards.resources.map boards.place⟩

theorem boards_tree : Forest.ofConfig boards = .ok boardTree :=
  Forest.ofConfig_of_check (by decide +kernel)

/-- Two projects, a task of each, a note on each task and a file of the first project. -/
def boardArchive : Archive where
  collections := [
    ("projects", ⟨2, [(0, ⟨[("uuid", .string "p1")]⟩), (1, ⟨[("uuid", .string "p2")]⟩)]⟩),
    ("tasks", ⟨2, [(0, ⟨[("projectsId", .string "p1"), ("uuid", .string "t1")]⟩),
      (1, ⟨[("projectsId", .string "p2"), ("uuid", .string "t2")]⟩)]⟩),
    ("notes", ⟨2, [(0, ⟨[("tasksId", .string "t1"), ("uuid", .string "n1")]⟩),
      (1, ⟨[("tasksId", .string "t2"), ("uuid", .string "n2")]⟩)]⟩),
    ("files", ⟨1, [(0, ⟨[("projectsId", .string "p1"), ("uuid", .string "f1")]⟩)]⟩)]
  supply := { randomBits := fun _ => 0, clock := fun _ => default }

def firstProject : Criteria := .eq "uuid" (.string "p1")

/-- With the first project go its task and the note on it. Its file stays. -/
theorem remove_takes_dependents_project :
    let s : Service Archive DocumentStore := { tree := boardTree, state := boardArchive }
    Forest.ofConfig boards = .ok boardTree ∧ Service.InUse Archive.backend boardTree s ∧
    ∃ m u after, (Service.steward Archive.backend "projects").outcome s = (.ok m, u) ∧
      (m.remove Archive.backend (some firstProject)).outcome boardArchive = (.ok 1, after) ∧
      ["projects", "tasks", "notes", "files"].map
        (fun name => (after.collection name).records.length) = [1, 1, 1, 1] ∧
      ∀ other, ¬ boardTree.Reaches "projects" other →
        after.holding other = boardArchive.holding other := by
  intro s
  have hs : Service.InUse Archive.backend boardTree s := .fresh _
  have hrun : (match (Service.steward Archive.backend "projects").outcome s with
      | (.ok m, _) =>
        match (m.remove Archive.backend (some firstProject)).outcome boardArchive with
        | (.ok n, after) => some (n, ["projects", "tasks", "notes", "files"].map
            fun name => (after.collection name).records.length)
        | (.error _, _) => none
      | (.error _, _) => none) = some (1, [1, 1, 1, 1]) := by decide +kernel
  rcases hm : (Service.steward Archive.backend "projects").outcome s with ⟨f | m, u⟩ <;>
    rw [hm] at hrun
  · cases hrun
  rcases hremove : (m.remove Archive.backend (some firstProject)).outcome boardArchive with
    ⟨f | n, after⟩ <;> simp only [hremove] at hrun
  · cases hrun
  obtain ⟨rfl, hleft⟩ := Prod.mk.inj (Option.some.inj hrun)
  obtain ⟨_, -, -, -, -, hothers⟩ := remove_takes_dependents boards_tree hs hm hremove
  exact ⟨boards_tree, hs, m, u, after, rfl, hremove, hleft, hothers⟩

end Grove
