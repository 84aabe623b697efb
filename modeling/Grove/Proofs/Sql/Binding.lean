import Grove.Proofs.Criteria.Integers
import Grove.Proofs.Decimal.Reading
import Grove.Sql.Parameter

/-!
# Integers as parameters

An integer goes to the server as an integer, as a binary64 number, as its digits or inside
JSON, by the kind of the column that it meets. Digits and JSON can write every integer. A
signed integer of sixty-four bits can not be one above its range, and a binary64 number can
not be every integer above 2^53. Where the one form cannot hold the integer the other is not
tried: it is the nearest binary64 number that is sent (`integer_kept_iff`).
-/

namespace Grove.Sql

namespace Parameter

/-- The integer is what the parameter stands for, in whatever form it has. -/
inductive Denotes (n : Int) : Parameter → Prop
  | int : Denotes n (.int n)
  | float {x : Double} (h : x.scaled = n * twoTo 1074) : Denotes n (.float (.finite x))
  | text {s : String} (h : Text.Writes s n) : Denotes n (.text s)
  | json : Denotes n (.json (.ofInt n))

variable {n : Int}

theorem denotes_float {x : Double} :
    (float (.finite x)).Denotes n ↔ x.scaled = n * twoTo 1074 :=
  ⟨fun | .float h => h, .float⟩

/-- What is rounded like the integer stands for it if it is one of the numbers. -/
theorem denotes_nearest (hn : Number.IsWritten n) {x : Double}
    (hx : x.scaled = (Double.ofInt n).scaled) :
    (float (.finite x)).Denotes n ↔ Double.IsExact n := by
  rw [denotes_float, hx]
  exact Double.scaled_ofInt_eq_iff hn.log2_le

/-- As what it is, an integer is one of sixty-four bits with a sign, or else the nearest
number. -/
theorem ofJson_ofInt (hn : Number.IsWritten n) :
    ofJson (.ofInt n) =
      if n < 0x8000000000000000 then .int n else .float (.finite (.ofInt n)) := by
  rw [Json.ofInt, ofJson, Number.int64?]
  by_cases hfits : n < 0x8000000000000000
  · simp [hfits, hn.1]
  · simp [hfits, Number.toDouble]

theorem denotes_ofJson (hn : Number.IsWritten n) :
    (ofJson (.ofInt n)).Denotes n ↔ n < 0x8000000000000000 ∨ Double.IsExact n := by
  rw [ofJson_ofInt hn]
  split
  · next hfits => exact ⟨fun _ => .inl hfits, fun _ => .int⟩
  · next hlarge =>
      rw [denotes_nearest hn rfl]
      exact ⟨.inr, fun h => h.resolve_left hlarge⟩

/-- For most kinds of columns an integer is sent as what it is. -/
theorem boundTo_ofInt {kind : Option ColumnClass} (htext : kind ≠ some .text)
    (hjson : kind ≠ some .json) (hfloat : kind ≠ some .float) :
    boundTo (.ofInt n) kind = ofJson (.ofInt n) := by
  rcases kind with _ | (_ | _ | _ | _ | _ | _ | _ | _)
  case some.text => exact absurd rfl htext
  case some.json => exact absurd rfl hjson
  case some.float => exact absurd rfl hfloat
  all_goals rfl

theorem denotes_boundTo_ofInt (hn : Number.IsWritten n) (kind : Option ColumnClass) :
    (boundTo (.ofInt n) kind).Denotes n ↔
      kind = some .text ∨ kind = some .json ∨
        (n < 0x8000000000000000 ∧ kind ≠ some .float) ∨ Double.IsExact n := by
  by_cases htext : kind = some .text
  · subst htext
    exact iff_of_true (.text (Text.writes_toString n)) (.inl rfl)
  by_cases hjson : kind = some .json
  · subst hjson
    exact iff_of_true .json (.inr (.inl rfl))
  by_cases hfloat : kind = some .float
  · subst hfloat
    have hnearest : (boundTo (.ofInt n) (some .float)).Denotes n ↔ Double.IsExact n :=
      denotes_nearest hn rfl
    rw [hnearest]
    exact ⟨fun h => .inr (.inr (.inr h)),
      fun h => h.elim nofun fun h => h.elim nofun fun h => h.elim (fun h => absurd rfl h.2) id⟩
  · rw [boundTo_ofInt htext hjson hfloat, denotes_ofJson hn]
    simp [htext, hjson, hfloat]

/-- What is not kept is sent as the nearest number. -/
theorem boundTo_ofInt_of_not_denotes (hn : Number.IsWritten n) {kind : Option ColumnClass}
    (h : ¬ (boundTo (.ofInt n) kind).Denotes n) :
    boundTo (.ofInt n) kind = .float (.finite (.ofInt n)) := by
  rw [denotes_boundTo_ofInt hn, not_or, not_or, not_or] at h
  obtain ⟨htext, hjson, hlarge, -⟩ := h
  by_cases hfloat : kind = some .float
  · rw [hfloat]
    rfl
  · rw [boundTo_ofInt htext hjson hfloat, ofJson_ofInt hn,
      if_neg fun hfits => hlarge ⟨hfits, hfloat⟩]

/-- For a column of integers the text of an integer becomes it, or it stays what it is. -/
theorem denotes_boundTo_integer {s : String} (hs : Text.Writes s n) :
    (boundTo (.string s) (some .integer)).Denotes n := by
  rw [boundTo, ofClass.eq_def]
  cases hread : Text.readInt64? (Text.trim s) with
  | some m =>
      have hspells := (Text.readInt64?_eq_some_iff.mp hread).1
      rw [Text.trim, String.toList_ofList] at hspells
      simp only [hread, hspells.unique hs]
      exact .int
  | none =>
      simp only [hread]
      exact .text hs

/-- For a column of binary64 numbers it becomes the nearest of them. -/
theorem exists_boundTo_float (hn : Number.IsWritten n) {s : String} (hs : Text.Writes s n) :
    ∃ x, boundTo (.string s) (some .float) = .float (.finite x) ∧
      x.scaled = (Double.ofInt n).scaled := by
  have hspells : Text.Spells (Text.trim s).toList n := by rwa [Text.trim, String.toList_ofList]
  obtain ⟨x, hread, hscaled⟩ := Binary64.read?_of_spells hspells hn.log2_le
  refine ⟨x, ?_, hscaled⟩
  rw [boundTo, ofClass.eq_def]
  simp only [hread]

end Parameter

open Parameter

/-- An integer is kept as a parameter if its column has a kind that writes it as digits or as
JSON, or if it is one of sixty-four bits with a sign and its column is not one of binary64
numbers, or if it is such a number; and only then. Its digits are kept for a column of integers
in any case, and for one of binary64 numbers if the integer is one. Otherwise the nearest number
is sent in its place. Up to 2^53 every integer is one of the numbers. -/
theorem integer_kept_iff {n : Int} (hn : Number.IsWritten n) :
    (∀ kind : Option ColumnClass,
      ((boundTo (.ofInt n) kind).Denotes n ↔
        kind = some .text ∨ kind = some .json ∨
          (n < 0x8000000000000000 ∧ kind ≠ some .float) ∨ Double.IsExact n) ∧
      (¬ (boundTo (.ofInt n) kind).Denotes n →
        boundTo (.ofInt n) kind = .float (.finite (.ofInt n)))) ∧
    (∀ s, Text.Writes s n →
      (boundTo (.string s) (some .integer)).Denotes n ∧
      ((boundTo (.string s) (some .float)).Denotes n ↔ Double.IsExact n) ∧
      ∃ x, boundTo (.string s) (some .float) = .float (.finite x) ∧
        x.scaled = (Double.ofInt n).scaled) ∧
    (n.natAbs ≤ 0x20000000000000 → Double.IsExact n) := by
  refine ⟨fun kind => ⟨denotes_boundTo_ofInt hn kind,
      boundTo_ofInt_of_not_denotes hn⟩, fun s hs => ?_, Double.isExact_of_small⟩
  obtain ⟨x, hbound, hscaled⟩ := exists_boundTo_float hn hs
  refine ⟨denotes_boundTo_integer hs, ?_, x, hbound, hscaled⟩
  rw [hbound, denotes_nearest hn hscaled]

/-- The least signed integer is a binary64 number, so it is kept for columns of every kind. -/
theorem integer_kept_iff_least :
    Number.IsWritten (-0x8000000000000000) ∧
    Text.Writes " -9223372036854775808 " (-0x8000000000000000) ∧
    (∀ kind, (boundTo (.ofInt (-0x8000000000000000)) kind).Denotes (-0x8000000000000000)) ∧
    (boundTo (.string " -9223372036854775808 ") (some .float)).Denotes (-0x8000000000000000) := by
  have hn : Number.IsWritten (-0x8000000000000000) := by decide
  have hwrites : Text.Writes " -9223372036854775808 " (-0x8000000000000000) :=
    show Text.Spells (toString (-0x8000000000000000 : Int)).toList _ from Text.spells_toString _
  have hexact : Double.IsExact (-0x8000000000000000) :=
    (Double.scaled_ofInt_eq_iff hn.log2_le).mp (by decide +kernel)
  obtain ⟨hkinds, htexts, -⟩ := integer_kept_iff hn
  obtain ⟨-, hnumbers, -⟩ := htexts _ hwrites
  refine ⟨hn, hwrites, fun kind => ?_, ?_⟩
  · exact (hkinds kind).1.mpr (.inr (.inr (.inr hexact)))
  · rw [hnumbers]
    exact hexact

/-- The first integer that is no binary64 number is sent as its neighbour when it meets a
column of exact decimals, as a number and as digits. The greatest integer that text is read as
is sent as another one when it meets a column of integers or one of which nothing is known. -/
theorem neighbour_sent :
    let decimals := some (ColumnClass.ofDataType "numeric")
    let integers := some (ColumnClass.ofDataType "bigint")
    (Number.IsWritten 0x20000000000001 ∧ Text.Writes "9007199254740993" 0x20000000000001 ∧
      ∀ v ∈ [.ofInt 0x20000000000001, .string "9007199254740993"],
        (boundTo v decimals).Denotes 0x20000000000000 ∧
        ¬ (boundTo v decimals).Denotes 0x20000000000001) ∧
    Number.IsWritten 0xFFFFFFFFFFFFFFFF ∧
    ∀ kind ∈ [none, integers],
      (boundTo (.ofInt 0xFFFFFFFFFFFFFFFF) kind).Denotes 0x10000000000000000 ∧
      ¬ (boundTo (.ofInt 0xFFFFFFFFFFFFFFFF) kind).Denotes 0xFFFFFFFFFFFFFFFF := by
  intro decimals integers
  have hdecimals : decimals = some .float := rfl
  have hintegers : integers = some .integer := rfl
  have hn : Number.IsWritten 0x20000000000001 := by decide
  have hm : Number.IsWritten 0xFFFFFFFFFFFFFFFF := by decide
  have hwrites : Text.Writes "9007199254740993" 0x20000000000001 :=
    show Text.Spells (toString (0x20000000000001 : Int)).toList _ from Text.spells_toString _
  have hrounded : (Double.ofInt 0x20000000000001).scaled = 0x20000000000000 * twoTo 1074 ∧
      (Double.ofInt 0x20000000000001).scaled ≠ 0x20000000000001 * twoTo 1074 ∧
      (Double.ofInt 0xFFFFFFFFFFFFFFFF).scaled = 0x10000000000000000 * twoTo 1074 ∧
      (Double.ofInt 0xFFFFFFFFFFFFFFFF).scaled ≠ 0xFFFFFFFFFFFFFFFF * twoTo 1074 := by
    decide +kernel
  have hbelow : ∀ {x : Double}, x.scaled = (Double.ofInt 0x20000000000001).scaled →
      (float (.finite x)).Denotes 0x20000000000000 ∧
      ¬ (float (.finite x)).Denotes 0x20000000000001 := by
    intro x hx
    rw [denotes_float, denotes_float, hx]
    exact ⟨hrounded.1, hrounded.2.1⟩
  have habove : (float (.finite (.ofInt 0xFFFFFFFFFFFFFFFF))).Denotes 0x10000000000000000 ∧
      ¬ (float (.finite (.ofInt 0xFFFFFFFFFFFFFFFF))).Denotes 0xFFFFFFFFFFFFFFFF := by
    rw [denotes_float, denotes_float]
    exact hrounded.2.2
  obtain ⟨x, hdigits, hscaled⟩ := exists_boundTo_float hn hwrites
  rw [hdecimals, hintegers]
  refine ⟨⟨hn, hwrites, ?_⟩, hm, ?_⟩
  · rw [List.forall_mem_cons, List.forall_mem_singleton, hdigits]
    exact ⟨hbelow rfl, hbelow hscaled⟩
  · rw [List.forall_mem_cons, List.forall_mem_singleton]
    exact ⟨habove, habove⟩

end Grove.Sql
