import Grove.Proofs.Outcome
import Grove.Resource.Forest

/-!
# Trees that were checked

What later proofs need of a checked configuration is that names tell resources apart, that
none of them breaks a path, and that parents come to an end. The last of these is used as
a rank: a number for every name that is smaller for the parent. It rules out at once that
a resource is its own parent, child or descendant.
-/

namespace Grove

/-- Where names tell elements apart, a search by name finds the one that has it. -/
theorem find?_name {α : Type} {name : α → String} {as : List α} (h : (as.map name).Nodup) {a : α}
    (ha : a ∈ as) : (as.find? fun b => name b == name a) = some a := by
  induction as with
  | nil => exact absurd ha List.not_mem_nil
  | cons b bs ih =>
      rw [List.map_cons, List.nodup_cons] at h
      rcases List.mem_cons.mp ha with rfl | ha
      · exact List.find?_cons_of_pos (by simp)
      · have hne : name b ≠ name a := fun he => h.1 (he ▸ List.mem_map_of_mem ha)
        rw [List.find?_cons_of_neg (by simpa using hne)]
        exact ih h.2 ha

namespace Config

theorem checkResource_eq_ok {earlier : List String} {r : ResourceEntry}
    (h : checkResource earlier r = .ok ()) : isSegment r.name = true ∧ r.name ∉ earlier := by
  simp only [checkResource] at h
  split at h
  · cases h
  · split at h
    · cases h
    · next hsegment =>
        split at h
        · cases h
        · next hnew => exact ⟨by simpa using hsegment, by simpa using hnew⟩

theorem checkResources_eq_ok {earlier : List String} {rs : List ResourceEntry}
    (h : checkResources earlier rs = .ok ()) :
    (∀ r ∈ rs, isSegment r.name = true ∧ r.name ∉ earlier) ∧ (rs.map (·.name)).Nodup := by
  induction rs generalizing earlier with
  | nil => exact ⟨fun _ hr => absurd hr List.not_mem_nil, List.nodup_nil⟩
  | cons r rs ih =>
      obtain ⟨⟨⟩, hr, h⟩ := bind_eq_ok.mp h
      obtain ⟨hrest, hnodup⟩ := ih h
      refine ⟨List.forall_mem_cons.mpr ⟨checkResource_eq_ok hr, fun r' hr' => ?_⟩, ?_⟩
      · have hnew := (hrest r' hr').2
        rw [List.mem_cons, not_or] at hnew
        exact ⟨(hrest r' hr').1, hnew.2⟩
      · rw [List.map_cons, List.nodup_cons]
        refine ⟨fun hmem => ?_, hnodup⟩
        obtain ⟨r', hr', hname⟩ := List.mem_map.mp hmem
        exact (hrest r' hr').2 (hname ▸ List.mem_cons_self)

theorem parent_of_checkParent {c : Config} {r : ResourceEntry} (h : c.checkParent r = .ok ())
    {parent : String} (hparent : r.parent = some parent) : (c.find? parent).isSome = true := by
  simp only [checkParent, hparent] at h
  cases hfound : c.find? parent with
  | some above => rfl
  | none =>
      rw [hfound] at h
      cases h

theorem checkParent_eq_ok {c : Config} {r : ResourceEntry} (h : c.checkParent r = .ok ()) :
    c.reachesRoot (c.resources.length + 1) r.name = true := by
  simp only [checkParent] at h
  cases hroot : c.reachesRoot (c.resources.length + 1) r.name with
  | true => rfl
  | false =>
      rw [hroot] at h
      split at h
      · split at h <;> cases h
      · cases h

theorem forM_eq_ok {ε α : Type} {f : α → Except ε Unit} {as : List α}
    (h : as.forM f = .ok ()) : ∀ a ∈ as, f a = .ok () := by
  induction as with
  | nil => exact fun _ ha => absurd ha List.not_mem_nil
  | cons a as ih =>
      obtain ⟨⟨⟩, ha, h⟩ := bind_eq_ok.mp h
      exact List.forall_mem_cons.mpr ⟨ha, ih h⟩

/-- What a configuration has that was found to be good. -/
structure Checked (c : Config) : Prop where
  segments : ∀ r ∈ c.resources, isSegment r.name = true
  nodup : (c.resources.map (·.name)).Nodup
  rooted : ∀ r ∈ c.resources, c.reachesRoot (c.resources.length + 1) r.name = true

theorem checked_of_check {c : Config} (h : c.check = .ok ()) : c.Checked := by
  obtain ⟨⟨⟩, hresources, hparents⟩ := bind_eq_ok.mp h
  obtain ⟨hsegments, hnodup⟩ := checkResources_eq_ok hresources
  exact ⟨fun r hr => (hsegments r hr).1, hnodup,
    fun r hr => checkParent_eq_ok (forM_eq_ok hparents r hr)⟩

/-! ## Ranks -/

/-- How many resources there are above a name, as far as the first argument admits. -/
def rank (c : Config) : Nat → String → Nat
  | 0, _ => 0
  | fuel + 1, name =>
    match c.parentOf name with
    | none => 0
    | some parent => c.rank fuel parent + 1

/-- Once the root is within reach, a rank does not depend on how far one may go. -/
theorem rank_succ {c : Config} {fuel : Nat} {name : String} (h : c.reachesRoot fuel name = true) :
    c.rank (fuel + 1) name = c.rank fuel name := by
  induction fuel generalizing name with
  | zero => cases h
  | succ fuel ih =>
      rw [reachesRoot] at h
      rw [rank, rank]
      cases hparent : c.parentOf name with
      | none => rfl
      | some parent =>
          rw [hparent] at h
          simp only [ih h]

theorem rank_lt {c : Config} {fuel : Nat} {name : String} (h : c.reachesRoot fuel name = true) :
    c.rank fuel name < fuel := by
  induction fuel generalizing name with
  | zero => cases h
  | succ fuel ih =>
      rw [reachesRoot] at h
      rw [rank]
      cases hparent : c.parentOf name with
      | none => exact Nat.succ_pos fuel
      | some parent =>
          rw [hparent] at h
          exact Nat.succ_lt_succ (ih h)

theorem rank_parent_lt {c : Config} (hc : c.Checked) {r : ResourceEntry} (hr : r ∈ c.resources)
    {parent : String} (hparent : r.parent = some parent) :
    c.rank (c.resources.length + 1) parent < c.rank (c.resources.length + 1) r.name := by
  have hroot := hc.rooted r hr
  have hof : c.parentOf r.name = some parent := by
    rw [parentOf, find?, find?_name hc.nodup hr]
    exact hparent
  rw [reachesRoot, hof] at hroot
  rw [rank_succ hroot]
  simp only [rank, hof]
  omega

end Config

namespace Forest

/-- The number of every resource is larger than that of its parent. -/
def Ranks (t : Forest) (rank : String → Nat) : Prop :=
  ∀ r ∈ t.resources, ∀ parent, r.parent = some parent → rank parent < rank r.name

structure Sound (t : Forest) : Prop where
  nodup : (t.resources.map (·.name)).Nodup
  /-- The children that a resource names have it for a parent. -/
  parent_of_child : ∀ r ∈ t.resources, ∀ child ∈ t.resources, child.name ∈ r.children →
    child.parent = some r.name
  /-- A resource names all that have it for a parent. -/
  child_of_parent : ∀ r ∈ t.resources, ∀ child ∈ t.resources, child.parent = some r.name →
    child.name ∈ r.children
  ranked : ∃ rank, t.Ranks rank

variable {t : Forest}

theorem get?_of_mem (ht : t.Sound) {r : Resource} (hr : r ∈ t.resources) :
    t.get? r.name = some r := find?_name ht.nodup hr

theorem mem_of_get? {name : String} {r : Resource} (h : t.get? name = some r) :
    r ∈ t.resources ∧ r.name = name :=
  ⟨List.mem_of_find?_eq_some h, by simpa using List.find?_some h⟩

theorem ofConfig_eq_ok {c : Config} (h : ofConfig c = .ok t) :
    c.Checked ∧ t.resources = c.resources.map c.place := by
  obtain ⟨⟨⟩, hcheck, h⟩ := bind_eq_ok.mp h
  cases h
  exact ⟨Config.checked_of_check hcheck, rfl⟩

theorem ofConfig_of_check {c : Config} (h : c.check.isOk = true) :
    ofConfig c = .ok ⟨c.resources.map c.place⟩ := by
  rw [ofConfig]
  cases hcheck : c.check with
  | error e => rw [hcheck] at h; cases h
  | ok u => rfl

theorem ranks_of_ofConfig {c : Config} (h : ofConfig c = .ok t) :
    t.Ranks (c.rank (c.resources.length + 1)) := by
  obtain ⟨hc, hresources⟩ := ofConfig_eq_ok h
  intro r hr parent hparent
  rw [hresources] at hr
  obtain ⟨entry, hentry, rfl⟩ := List.mem_map.mp hr
  exact Config.rank_parent_lt hc hentry hparent

theorem sound_of_ofConfig {c : Config} (h : ofConfig c = .ok t) : t.Sound := by
  obtain ⟨hc, hresources⟩ := ofConfig_eq_ok h
  refine ⟨?_, ?_, ?_, _, ranks_of_ofConfig h⟩
  · rw [hresources, List.map_map]
    exact hc.nodup
  · intro r hr child hchild hname
    rw [hresources] at hr hchild
    obtain ⟨entry, hentry, rfl⟩ := List.mem_map.mp hr
    obtain ⟨below, hbelow, rfl⟩ := List.mem_map.mp hchild
    obtain ⟨named, hnamed, heq⟩ := List.mem_map.mp hname
    obtain ⟨hmem, hparent⟩ := List.mem_filter.mp hnamed
    have hsame : named = below := by
      have hfound := find?_name hc.nodup hmem
      rw [show named.name = below.name from heq, find?_name hc.nodup hbelow] at hfound
      exact (Option.some.inj hfound).symm
    subst hsame
    exact eq_of_beq hparent
  · intro r hr child hchild hparent
    rw [hresources] at hr hchild
    obtain ⟨entry, hentry, rfl⟩ := List.mem_map.mp hr
    obtain ⟨below, hbelow, rfl⟩ := List.mem_map.mp hchild
    exact List.mem_map_of_mem (List.mem_filter.mpr ⟨hbelow, beq_iff_eq.mpr hparent⟩)

/-- How the resources of a tree are linked: every parent is there, children are named in
the order of the tree, and no way up is longer than the tree. -/
structure Linked (t : Forest) : Prop where
  sound : t.Sound
  parent : ∀ r ∈ t.resources, ∀ name, r.parent = some name → ∃ above, t.get? name = some above
  children : ∀ r ∈ t.resources,
    r.children = (t.resources.filter (·.parent == some r.name)).map (·.name)
  ranked : ∃ rank, t.Ranks rank ∧ ∀ r ∈ t.resources, rank r.name ≤ t.size

theorem linked_of_ofConfig {c : Config} (h : ofConfig c = .ok t) : t.Linked := by
  obtain ⟨hc, hresources⟩ := ofConfig_eq_ok h
  obtain ⟨⟨⟩, hcheck, -⟩ := bind_eq_ok.mp h
  obtain ⟨⟨⟩, -, hparents⟩ := bind_eq_ok.mp hcheck
  refine ⟨sound_of_ofConfig h, ?_, ?_, _, ranks_of_ofConfig h, ?_⟩
  · intro r hr name hname
    rw [hresources] at hr
    obtain ⟨entry, hentry, rfl⟩ := List.mem_map.mp hr
    have hfound := Config.parent_of_checkParent (Config.forM_eq_ok hparents entry hentry) hname
    obtain ⟨above, habove⟩ := Option.isSome_iff_exists.mp hfound
    refine ⟨c.place above, ?_⟩
    have hmem : c.place above ∈ t.resources :=
      hresources ▸ List.mem_map_of_mem (List.mem_of_find?_eq_some habove)
    have hsame : above.name = name := by simpa using List.find?_some habove
    exact hsame ▸ get?_of_mem (sound_of_ofConfig h) hmem
  · intro r hr
    rw [hresources] at hr
    obtain ⟨entry, -, rfl⟩ := List.mem_map.mp hr
    rw [hresources, List.filter_map, List.map_map]
    rfl
  · intro r hr
    rw [hresources] at hr
    obtain ⟨entry, hentry, rfl⟩ := List.mem_map.mp hr
    rw [size, hresources, List.length_map]
    exact Nat.le_of_lt_succ (Config.rank_lt (hc.rooted entry hentry))

end Forest

end Grove
