import Mathlib.Data.List.TakeWhile
import Grove.Text

/-!
# Splitting text

Text without the separator is one piece, and pieces without it are what a text made of
them, with the separator in between, is split into. Text is cut at its first separator, and
only where there is one.
-/

namespace Grove.Text

/-- There is always a piece before the first separator. -/
theorem splitChars_ne_nil (sep : Char) (cs : List Char) : splitChars sep cs ≠ [] := by
  cases cs with
  | nil => simp [splitChars]
  | cons c cs =>
      rw [splitChars]
      split
      · simp
      · split <;> simp

theorem split_ne_nil (sep : Char) (s : String) : split sep s ≠ [] := by
  rw [split, Ne, List.map_eq_nil_iff]
  exact splitChars_ne_nil sep s.toList

theorem splitChars_of_notMem {sep : Char} {cs : List Char} (h : sep ∉ cs) :
    splitChars sep cs = [cs] := by
  induction cs with
  | nil => rfl
  | cons c cs ih =>
      rw [List.mem_cons, not_or] at h
      rw [splitChars, if_neg (Ne.symm h.1), ih h.2]

theorem split_of_not_has {sep : Char} {s : String} (h : has s sep = false) : split sep s = [s] := by
  have hmem : sep ∉ s.toList := by simpa [has] using h
  rw [split, splitChars_of_notMem hmem]
  simp

/-- The pieces of two texts with the separator in between are the pieces of both. -/
theorem splitChars_append (sep : Char) (cs ds : List Char) :
    splitChars sep (cs ++ sep :: ds) = splitChars sep cs ++ splitChars sep ds := by
  induction cs with
  | nil => simp [splitChars]
  | cons c cs ih =>
      obtain ⟨first, rest, hpieces⟩ := List.exists_cons_of_ne_nil (splitChars_ne_nil sep cs)
      rw [List.cons_append, splitChars, ih, hpieces, splitChars, hpieces]
      by_cases hc : c = sep
      · rw [if_pos hc, if_pos hc]
        rfl
      · rw [if_neg hc, if_neg hc]
        rfl

theorem split_append (sep : Char) (s t : String) :
    split sep (s ++ String.singleton sep ++ t) = split sep s ++ split sep t := by
  have hchars : (s ++ String.singleton sep ++ t).toList = s.toList ++ sep :: t.toList := by
    simp only [String.toList_append, String.toList_singleton, List.append_assoc,
      List.singleton_append]
  rw [split, split, split, hchars, splitChars_append, List.map_append]

theorem split_intercalate {sep : Char} {pieces : List String} (hne : pieces ≠ [])
    (h : ∀ piece ∈ pieces, has piece sep = false) :
    split sep (String.intercalate (String.singleton sep) pieces) = pieces := by
  induction pieces with
  | nil => exact absurd rfl hne
  | cons piece pieces ih =>
      rw [List.forall_mem_cons] at h
      cases pieces with
      | nil => rw [String.intercalate_singleton, split_of_not_has h.1]
      | cons next rest =>
          rw [String.intercalate_cons_cons, split_append, split_of_not_has h.1,
            ih (List.cons_ne_nil _ _) h.2]
          rfl

theorem not_mem_splitChars {sep : Char} {cs piece : List Char} (h : piece ∈ splitChars sep cs) :
    sep ∉ piece := by
  induction cs generalizing piece with
  | nil =>
      cases List.mem_singleton.mp h
      exact List.not_mem_nil
  | cons c cs ih =>
      rw [splitChars] at h
      split at h
      · rcases List.mem_cons.mp h with rfl | h
        · exact List.not_mem_nil
        · exact ih h
      · next hc =>
          split at h
          · cases List.mem_singleton.mp h
            exact fun hmem => hc (List.mem_singleton.mp hmem).symm
          · next first rest hsplit =>
              rw [hsplit] at ih
              rcases List.mem_cons.mp h with rfl | h
              · rw [List.mem_cons, not_or]
                exact ⟨Ne.symm hc, ih List.mem_cons_self⟩
              · exact ih (List.mem_cons_of_mem _ h)

theorem has_split {sep : Char} {s piece : String} (h : piece ∈ split sep s) :
    has piece sep = false := by
  obtain ⟨cs, hcs, rfl⟩ := List.mem_map.mp h
  simpa [has] using not_mem_splitChars hcs

theorem subset_of_mem_splitChars {sep : Char} {cs piece : List Char}
    (h : piece ∈ splitChars sep cs) : piece ⊆ cs := by
  induction cs generalizing piece with
  | nil =>
      cases List.mem_singleton.mp h
      exact List.nil_subset _
  | cons c cs ih =>
      rw [splitChars] at h
      split at h
      · rcases List.mem_cons.mp h with rfl | h
        · exact List.nil_subset _
        · exact List.subset_cons_of_subset c (ih h)
      · split at h
        · rw [List.mem_singleton.mp h]
          exact List.cons_subset.mpr ⟨List.mem_cons_self, List.nil_subset _⟩
        · next first rest hsplit =>
            rw [hsplit] at ih
            rcases List.mem_cons.mp h with rfl | h
            · exact List.cons_subset_cons c (ih List.mem_cons_self)
            · exact List.subset_cons_of_subset c (ih (List.mem_cons_of_mem _ h))

/-- A piece has no character that the text does not have. -/
theorem has_of_mem_split {sep c : Char} {s piece : String} (h : piece ∈ split sep s)
    (hs : has s c = false) : has piece c = false := by
  obtain ⟨cs, hcs, rfl⟩ := List.mem_map.mp h
  have hsubset := subset_of_mem_splitChars hcs
  have hmem : c ∉ s.toList := by simpa [has] using hs
  simpa [has] using fun hc => hmem (hsubset hc)

theorem ne_of_notMem {sep : Char} {cs : List Char} (h : sep ∉ cs) :
    ∀ c ∈ cs, decide (c ≠ sep) = true :=
  fun _ hc => decide_eq_true fun heq => h (heq ▸ hc)

theorem cutAt_append {sep : Char} {cs : List Char} (h : sep ∉ cs) (ds : List Char) :
    cutAt sep (cs ++ sep :: ds) = some (cs, ds) := by
  have hother := ne_of_notMem h
  rw [cutAt, List.dropWhile_append_of_pos hother, List.takeWhile_append_of_pos hother,
    List.dropWhile_cons_of_neg (by simp), List.takeWhile_cons_of_neg (by simp), List.append_nil]

theorem cutAt_eq_none_iff {sep : Char} {cs : List Char} : cutAt sep cs = none ↔ sep ∉ cs := by
  constructor
  · intro h hmem
    obtain ⟨front, back, rfl, hfront⟩ := List.eq_append_cons_of_mem hmem
    rw [cutAt_append hfront] at h
    cases h
  · intro h
    have hnone : cs.dropWhile (fun c => decide (c ≠ sep)) = [] :=
      List.dropWhile_eq_nil_iff.mpr (ne_of_notMem h)
    rw [cutAt, hnone]

end Grove.Text
