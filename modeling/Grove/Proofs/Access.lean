import Mathlib
import Grove.Access
import Grove.Proofs.Text.Trim

/-!
# Who is let through

A configuration lists strategies for methods and rules for roles, and a request lists roles in
a header. What decides is less than what they hold: whether a method has a strategy in any
case, which roles the first header of roles names, and what the rules let those roles do. The
text of the header is trimmed before it is split and its pieces are trimmed again, and the
first trimming changes no piece (`Text.entries_trim`), so the named roles are read off the
header itself. The rest follows from the form of the decision: the rules and the roles stand
only where they can let a request through, and the strategies only where they can stop it.
-/

namespace Grove

variable {c : AccessConfig} {hs hs' : Headers} {method role : String} {action : Privilege}

/-- The methods that do something to a resource, with what they do. -/
def Privilege.methods : List (String × Privilege) :=
  [("GET", .read), ("POST", .create), ("PUT", .update), ("PATCH", .update), ("DELETE", .delete)]

namespace Text

theorem upper_eq_upper_iff {s t : String} : upper s = upper t ↔ equalIgnoringCase s t = true := by
  have hlower : ∀ s, lower (upper s) = lower s := by
    intro s
    rw [lower, upper, String.toList_ofList, List.map_map, lower]
    congr 2
    exact funext fun c => Char.toLower_toUpper_eq_toLower c
  have hupper : ∀ s, upper (lower s) = upper s := by
    intro s
    rw [upper, lower, String.toList_ofList, List.map_map, upper]
    congr 2
    exact funext fun c => Char.toUpper_toLower_eq_toUpper c
  rw [equalIgnoringCase, beq_iff_eq]
  constructor
  · intro h
    rw [← hlower s, h, hlower t]
  · intro h
    rw [← hupper s, h, hupper t]

theorem mem_entries {s entry : String} :
    entry ∈ entries s ↔ entry ≠ "" ∧ ∃ piece ∈ split ',' s, trim piece = entry := by
  rw [entries, List.mem_filter, List.mem_map, decide_eq_true_eq, and_comm]

end Text

namespace AccessConfig

/-- A strategy is configured for the method, in any case. -/
def Guards (c : AccessConfig) (method : String) : Prop :=
  ∃ s ∈ c.strategies, Text.equalIgnoringCase s.1 method = true

def Permits (c : AccessConfig) (role : String) (action : Privilege) : Prop :=
  ∃ p, c.rules.lookup role = some p ∧ p.grants action = true

def Admits (c : AccessConfig) (hs : Headers) (method : String) : Prop :=
  (AccessPolicy.ofConfig c).admits hs.principal? method = true

end AccessConfig

/-! ## The roles that headers name -/

namespace Headers

/-- The first header of roles is text, and the role is one of its entries. -/
def NamesRole (hs : Headers) (role : String) : Prop :=
  ∃ value, hs.first? rolesName = some value ∧ isReadable value = true ∧
    role ≠ "" ∧ ∃ piece ∈ Text.split ',' value, Text.trim piece = role

def roles (hs : Headers) : List String := (hs.text? rolesName).elim [] Text.entries

theorem mem_roles_iff : role ∈ hs.roles ↔ hs.NamesRole role := by
  rw [roles, text?, NamesRole]
  cases hs.first? rolesName with
  | none => simp
  | some value =>
      by_cases hreadable : isReadable value = true
      · have hentries := Text.entries_trim value
        by_cases hempty : Text.trim value = ""
        · -- A header that is all blank has no entries either.
          rw [hempty] at hentries
          have hnone : role ∉ Text.entries value := by
            rw [← hentries]
            exact List.not_mem_nil
          rw [Text.mem_entries] at hnone
          simpa [hreadable, hempty] using hnone
        · simp [hreadable, hempty, hentries, Text.mem_entries]
      · simp [hreadable]

theorem namesRole_of_first?_eq (h : hs'.first? rolesName = hs.first? rolesName) :
    hs'.NamesRole role ↔ hs.NamesRole role := by
  rw [NamesRole, NamesRole, h]

/-- A list with more behind it still names what it names. -/
theorem NamesRole.of_longer {value more : String} (h : hs.NamesRole role)
    (hvalue : hs.first? rolesName = some value)
    (hmore : hs'.first? rolesName = some (value ++ "," ++ more))
    (hreadable : isReadable more = true) : hs'.NamesRole role := by
  obtain ⟨value', hvalue', hread, hrole, piece, hpiece, htrim⟩ := h
  cases hvalue.symm.trans hvalue'
  refine ⟨_, hmore, ?_, hrole, piece, ?_, htrim⟩
  · rw [isReadable] at hread hreadable ⊢
    rw [String.toList_append, String.toList_append, List.all_append, List.all_append, hread,
      hreadable]
    rfl
  · rw [show "," = String.singleton ',' from rfl, Text.split_append]
    exact List.mem_append_left _ hpiece

end Headers

/-! ## The decision -/

namespace AccessPolicy

theorem strategy?_eq_none_iff (hmethod : Text.upper method = method) :
    (ofConfig c).strategy? method = none ↔ ¬c.Guards method := by
  have hguards : c.Guards method ↔ ∃ s ∈ c.strategies, Text.upper s.1 = method := by
    simp only [AccessConfig.Guards, ← Text.upper_eq_upper_iff, hmethod]
  rw [strategy?, ofConfig, List.lookup_eq_none_iff, hguards]
  simp only [List.mem_reverse, List.forall_mem_map, bne_iff_ne, ne_eq, not_exists, not_and]
  exact forall₂_congr fun s _ => not_congr eq_comm

/-- Whoever names no subject and no role is no caller; like a caller without roles they may
do nothing that is guarded. -/
theorem admits_of_guarded (hguarded : (ofConfig c).strategy? method ≠ none)
    (haction : Privilege.ofMethod? method = some action) :
    (ofConfig c).admits hs.principal? method = true ↔
      ∃ role, hs.NamesRole role ∧ c.Permits role action := by
  obtain ⟨strategy, hstrategy⟩ := Option.ne_none_iff_exists'.mp hguarded
  have hroles : (ofConfig c).admits hs.principal? method =
      (hs.roles.filterMap (ofConfig c).permissions?).any (·.grants action) := by
    have hcaller : hs.principal? =
        if (hs.text? Headers.subjectName).isNone && hs.roles.isEmpty then none
        else some ⟨hs.text? Headers.subjectName, hs.roles⟩ := rfl
    simp only [admits, hstrategy, haction, hcaller]
    by_cases hnobody : ((hs.text? Headers.subjectName).isNone && hs.roles.isEmpty) = true
    · have hempty : hs.roles = [] := by simp_all
      rw [if_pos hnobody, hempty]
      rfl
    · rw [if_neg hnobody]
  rw [hroles, List.any_eq_true]
  simp only [List.mem_filterMap, Headers.mem_roles_iff]
  constructor
  · rintro ⟨p, ⟨role, hrole, hp⟩, hgrants⟩
    exact ⟨role, hrole, p, hp, hgrants⟩
  · rintro ⟨role, hrole, p, hp, hgrants⟩
    exact ⟨p, ⟨role, hrole, hp⟩, hgrants⟩

end AccessPolicy

theorem Privilege.ofMethod?_of_mem (h : (method, action) ∈ Privilege.methods) :
    Privilege.ofMethod? method = some action ∧ Text.upper method = method := by
  have hall : ∀ m ∈ Privilege.methods,
      Privilege.ofMethod? m.1 = some m.2 ∧ Text.upper m.1 = m.1 := by decide
  exact hall _ h

namespace AccessConfig

theorem admits_iff (h : (method, action) ∈ Privilege.methods) :
    c.Admits hs method ↔ ¬c.Guards method ∨ ∃ role, hs.NamesRole role ∧ c.Permits role action := by
  obtain ⟨haction, hmethod⟩ := Privilege.ofMethod?_of_mem h
  rw [← AccessPolicy.strategy?_eq_none_iff hmethod]
  by_cases hopen : (AccessPolicy.ofConfig c).strategy? method = none
  · have hadmits : c.Admits hs method := by
      simp only [Admits, AccessPolicy.admits, hopen]
    exact iff_of_true hadmits (.inl hopen)
  · rw [or_iff_right hopen]
    exact AccessPolicy.admits_of_guarded hopen haction

theorem admits_of_more_roles (h : (method, action) ∈ Privilege.methods)
    (hmore : ∀ role, hs.NamesRole role → hs'.NamesRole role) (hadmits : c.Admits hs method) :
    c.Admits hs' method := by
  rw [admits_iff h] at hadmits ⊢
  refine hadmits.imp_right ?_
  rintro ⟨role, hrole, hpermits⟩
  exact ⟨role, hmore role hrole, hpermits⟩

/-- How requests with a method are judged, and what an edit of the configuration or of the
headers can and cannot do to the judgement. -/
structure JudgesByRules (c : AccessConfig) (method : String) (action : Privilege) : Prop where
  decides : ∀ hs : Headers, c.Admits hs method ↔
    ¬c.Guards method ∨ ∃ role, hs.NamesRole role ∧ c.Permits role action
  /-- Where every method with a strategy keeps one, nobody is let through who was not. -/
  of_more_strategies : ∀ (hs : Headers) (strategies : List (String × String)),
    (∀ s ∈ c.strategies, ∃ s' ∈ strategies, s'.1 = s.1) →
      ({ c with strategies } : AccessConfig).Admits hs method → c.Admits hs method
  /-- Where every role keeps a rule that lets it do at least what it could, nobody is stopped
  who was let through. -/
  of_more_permissions : ∀ (hs : Headers) (rules : List (String × Permissions)),
    (∀ role p, c.rules.lookup role = some p → ∃ p', rules.lookup role = some p' ∧
        ∀ deed, p.grants deed = true → p'.grants deed = true) →
      c.Admits hs method → ({ c with rules } : AccessConfig).Admits hs method
  of_more_roles : ∀ hs hs' : Headers, (∀ role, hs.NamesRole role → hs'.NamesRole role) →
    c.Admits hs method → c.Admits hs' method
  /-- Entries behind those of the header of roles. -/
  of_longer_list : ∀ (hs hs' : Headers) (value more : String),
    hs.first? Headers.rolesName = some value →
      hs'.first? Headers.rolesName = some (value ++ "," ++ more) →
      Headers.isReadable more = true → c.Admits hs method → c.Admits hs' method
  /-- Nothing but the first header of roles counts, the subject no more than the others. -/
  of_same_roles : ∀ hs hs' : Headers,
    hs'.first? Headers.rolesName = hs.first? Headers.rolesName →
      (c.Admits hs' method ↔ c.Admits hs method)
  /-- Who names no role gets what is open to everyone, under whatever subject. -/
  of_no_role : ∀ hs : Headers, (∀ role, ¬hs.NamesRole role) →
    (c.Admits hs method ↔ ¬c.Guards method)

theorem judges_by_rules (h : (method, action) ∈ Privilege.methods) (c : AccessConfig) :
    c.JudgesByRules method action where
  decides hs := admits_iff h
  of_more_strategies hs strategies hmore := by
    intro hadmits
    rw [admits_iff h] at hadmits ⊢
    refine hadmits.imp_left fun hopen => ?_
    rintro ⟨s, hs, hmethod⟩
    obtain ⟨s', hs', hname⟩ := hmore s hs
    exact hopen ⟨s', hs', hname ▸ hmethod⟩
  of_more_permissions hs rules hmore := by
    intro hadmits
    rw [admits_iff h] at hadmits ⊢
    refine hadmits.imp_right ?_
    rintro ⟨role, hrole, p, hp, hgrants⟩
    obtain ⟨p', hp', hleast⟩ := hmore role p hp
    exact ⟨role, hrole, p', hp', hleast action hgrants⟩
  of_more_roles hs hs' hmore := admits_of_more_roles h hmore
  of_longer_list hs hs' value more hvalue hlonger hreadable :=
    admits_of_more_roles h fun _ hrole => hrole.of_longer hvalue hlonger hreadable
  of_same_roles hs hs' hsame :=
    ⟨admits_of_more_roles h fun _ => (Headers.namesRole_of_first?_eq hsame).mp,
      admits_of_more_roles h fun _ => (Headers.namesRole_of_first?_eq hsame).mpr⟩
  of_no_role hs hnone := by
    rw [admits_iff h, or_iff_left]
    rintro ⟨role, hrole, -⟩
    exact hnone role hrole

def wards : AccessConfig where
  strategies := [("get", "jwt"), ("Post", "jwt")]
  rules := [("reader", { read := true })]

theorem judges_by_rules_wards :
    ("GET", Privilege.read) ∈ Privilege.methods ∧
      wards.Admits [("X-Subject", "u1"), ("x-roles", " guest, reader,,")] "GET" ∧
      ¬wards.Admits [("X-Subject", "reader")] "GET" := by
  have hget : ("GET", Privilege.read) ∈ Privilege.methods := by decide
  have hreader :
      Headers.NamesRole [("X-Subject", "u1"), ("x-roles", " guest, reader,,")] "reader" :=
    ⟨" guest, reader,,", by decide, by decide, by decide, " reader", by decide, by decide⟩
  have hguarded : wards.Guards "GET" := ⟨("get", "jwt"), by decide, by decide⟩
  refine ⟨hget, ?_, fun hadmits => ?_⟩
  · exact ((judges_by_rules hget wards).decides _).mpr
      (.inr ⟨"reader", hreader, { read := true }, by decide, rfl⟩)
  · refine ((judges_by_rules hget wards).of_no_role _ ?_).mp hadmits hguarded
    rintro role ⟨value, hvalue, -⟩
    exact Option.some_ne_none value (hvalue.symm.trans (by decide))

end AccessConfig

end Grove
