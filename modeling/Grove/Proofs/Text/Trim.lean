import Mathlib.Data.List.TakeWhile
import Grove.Proofs.Text.Split

/-!
# Trimming text

A text is what is left of it between two runs of blanks (`trimChars_eq`), and putting blanks
before or behind a text does not change what is left of it. A separator that is no blank
stands in neither run, so a text and what is left of it split into the same pieces but for
blanks at the start of the first and at the end of the last: the entries of a list are the
same before it is trimmed and after.
-/

namespace Grove.Text

theorem trimChars_eq (cs : List Char) :
    ∃ lead trail, cs = lead ++ (trimChars cs ++ trail) ∧ (∀ c ∈ lead, isBlank c = true) ∧
      ∀ c ∈ trail, isBlank c = true := by
  have hlead := List.takeWhile_append_dropWhile (p := isBlank) (l := cs)
  have htrail :=
    List.takeWhile_append_dropWhile (p := isBlank) (l := (cs.dropWhile isBlank).reverse)
  refine ⟨cs.takeWhile isBlank, ((cs.dropWhile isBlank).reverse.takeWhile isBlank).reverse,
    ?_, fun c hc => List.mem_takeWhile_imp hc,
    fun c hc => List.mem_takeWhile_imp (List.mem_reverse.mp hc)⟩
  rw [trimChars, ← List.reverse_append, htrail, List.reverse_reverse, hlead]

/-- Nothing is left of a text exactly if all of it is blank. -/
theorem trim_eq_empty_iff {s : String} : trim s = "" ↔ isAllBlank s = true := by
  have hempty : trim s = "" ↔ trimChars s.toList = [] := by
    rw [trim, ← String.toList_inj]
    simp
  rw [hempty, isAllBlank, List.all_eq_true]
  constructor
  · intro h
    obtain ⟨lead, trail, hcs, hlead, htrail⟩ := trimChars_eq s.toList
    rw [h, List.nil_append] at hcs
    rw [hcs]
    exact fun c hc => (List.mem_append.mp hc).elim (hlead c) (htrail c)
  · intro h
    have hnone : s.toList.dropWhile isBlank = [] := List.dropWhile_eq_nil_iff.mpr h
    rw [trimChars, hnone]
    rfl

variable {gap : List Char}

theorem trimChars_blanks_append (hgap : ∀ c ∈ gap, isBlank c = true) (cs : List Char) :
    trimChars (gap ++ cs) = trimChars cs := by
  rw [trimChars, trimChars, List.dropWhile_append_of_pos hgap]

theorem trimChars_append_blanks (hgap : ∀ c ∈ gap, isBlank c = true) (cs : List Char) :
    trimChars (cs ++ gap) = trimChars cs := by
  have hreverse : ∀ c ∈ gap.reverse, isBlank c = true := fun c hc => hgap c (List.mem_reverse.mp hc)
  rw [trimChars, trimChars, List.dropWhile_append]
  split
  · next hblank =>
      rw [List.isEmpty_iff.mp hblank, List.dropWhile_eq_nil_iff.mpr hgap]
  · rw [List.reverse_append, List.dropWhile_append_of_pos hreverse]

/-! ## The pieces of a text that is trimmed -/

variable {sep : Char}

/-- What holds no separator goes to the first piece of the text it stands before. -/
theorem splitChars_of_lead (hgap : sep ∉ gap) (cs : List Char) :
    ∃ first rest, splitChars sep cs = first :: rest ∧
      splitChars sep (gap ++ cs) = (gap ++ first) :: rest := by
  induction gap with
  | nil =>
      obtain ⟨first, rest, hpieces⟩ := List.exists_cons_of_ne_nil (splitChars_ne_nil sep cs)
      exact ⟨first, rest, hpieces, hpieces⟩
  | cons c gap ih =>
      rw [List.mem_cons, not_or] at hgap
      obtain ⟨first, rest, hpieces, hgap'⟩ := ih hgap.2
      refine ⟨first, rest, hpieces, ?_⟩
      rw [List.cons_append, splitChars, if_neg (Ne.symm hgap.1), hgap']
      rfl

/-- What holds no separator goes to the last piece of the text it stands behind. -/
theorem splitChars_of_trail (hgap : sep ∉ gap) (cs : List Char) :
    ∃ front last, splitChars sep cs = front ++ [last] ∧
      splitChars sep (cs ++ gap) = front ++ [last ++ gap] := by
  induction cs with
  | nil => exact ⟨[], [], rfl, splitChars_of_notMem hgap⟩
  | cons c cs ih =>
      obtain ⟨front, last, hpieces, hgap'⟩ := ih
      rw [List.cons_append, splitChars, splitChars, hpieces, hgap']
      by_cases hc : c = sep
      · rw [if_pos hc, if_pos hc]
        exact ⟨[] :: front, last, rfl, rfl⟩
      · rw [if_neg hc, if_neg hc]
        cases front with
        | nil => exact ⟨[], c :: last, rfl, rfl⟩
        | cons first front => exact ⟨(c :: first) :: front, last, rfl, rfl⟩

/-- Trimming a text changes none of its pieces but for the blanks around them. -/
theorem map_trimChars_splitChars_trimChars (hsep : isBlank sep = false) (cs : List Char) :
    (splitChars sep (trimChars cs)).map trimChars = (splitChars sep cs).map trimChars := by
  obtain ⟨lead, trail, hcs, hlead, htrail⟩ := trimChars_eq cs
  have hnone : ∀ gap : List Char, (∀ c ∈ gap, isBlank c = true) → sep ∉ gap := by
    intro gap hgap hmem
    rw [hgap sep hmem] at hsep
    cases hsep
  obtain ⟨first, rest, hinner, houter⟩ :=
    splitChars_of_lead (hnone lead hlead) (trimChars cs ++ trail)
  obtain ⟨front, last, hkept, htrailing⟩ :=
    splitChars_of_trail (hnone trail htrail) (trimChars cs)
  calc (splitChars sep (trimChars cs)).map trimChars
      = (splitChars sep (trimChars cs ++ trail)).map trimChars := by
        rw [hkept, htrailing, List.map_append, List.map_append, List.map_singleton,
          List.map_singleton, trimChars_append_blanks htrail]
    _ = (splitChars sep (lead ++ (trimChars cs ++ trail))).map trimChars := by
        rw [hinner, houter, List.map_cons, List.map_cons, trimChars_blanks_append hlead]
    _ = (splitChars sep cs).map trimChars := by rw [← hcs]

theorem entries_trim (s : String) : entries (trim s) = entries s := by
  have hpieces := map_trimChars_splitChars_trimChars (show isBlank ',' = false by decide) s.toList
  have htrim : ∀ cs : List Char, trim (String.ofList cs) = String.ofList (trimChars cs) := by
    intro cs
    rw [trim, String.toList_ofList]
  have hmap : ∀ cs : List Char, ((splitChars ',' cs).map String.ofList).map trim =
      ((splitChars ',' cs).map trimChars).map String.ofList := by
    intro cs
    rw [List.map_map, List.map_map]
    exact List.map_congr_left fun piece _ => htrim piece
  rw [entries, entries, split, split, hmap, hmap, trim, String.toList_ofList, hpieces]

end Grove.Text
