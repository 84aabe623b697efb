import Grove.Proofs.Text.Fixed
import Grove.Proofs.Text.Split
import Grove.Uuid

/-!
# The text of an identifier

The digits of an identifier stand in groups with hyphens between them, and a reader that takes
the hyphens out has the digits again (`read?_text`).
-/

namespace Grove.Uuid

/-- The groups that the digits are written in. -/
def groups (u : Uuid) : List (List Char) :=
  let ds := Text.hexFixed 32 u.value
  [ds.take 8, (ds.drop 8).take 4, (ds.drop 12).take 4, (ds.drop 16).take 4, (ds.drop 20).take 12]

theorem text_eq (u : Uuid) :
    u.text = String.intercalate (String.singleton '-') (u.groups.map String.ofList) := by
  simp [text, groups, show String.singleton '-' = "-" from rfl]

theorem flatten_groups (u : Uuid) : u.groups.flatten = Text.hexFixed 32 u.value := by
  have hlength := Text.length_hexFixed 32 u.value
  have hlast : ((Text.hexFixed 32 u.value).drop 20).take 12 = (Text.hexFixed 32 u.value).drop 20 :=
    List.take_of_length_le (Nat.le_of_eq (by rw [List.length_drop, hlength]))
  have hjoin (start size : Nat) : ((Text.hexFixed 32 u.value).drop start).take size ++
      (Text.hexFixed 32 u.value).drop (start + size) = (Text.hexFixed 32 u.value).drop start := by
    rw [← List.drop_drop, List.take_append_drop]
  simp only [groups, List.flatten_cons, List.flatten_nil, List.append_nil, hlast]
  rw [hjoin 16 4, hjoin 12 4, hjoin 8 4, List.take_append_drop]

theorem hexDigit_of_mem_groups {u : Uuid} {g : List Char} (hg : g ∈ u.groups) {c : Char}
    (hc : c ∈ g) :
    ∃ d < 16, c = Text.hexDigit d := by
  have hmem : c ∈ Text.hexFixed 32 u.value := by
    rw [← flatten_groups]
    exact List.mem_flatten_of_mem hg hc
  exact Text.hexDigit_of_mem_hexFixed hmem

/-- Neither hyphens nor the letters and braces that may stand before an identifier are digits. -/
theorem hexDigit_ne {d : Nat} (h : d < 16) :
    Text.hexDigit d ≠ '-' ∧ Text.hexDigit d ≠ '\x7b' ∧ (Text.hexDigit d).toLower ≠ 'u' := by
  have hall : ∀ d : Fin 16, Text.hexDigit d ≠ '-' ∧ Text.hexDigit d ≠ '\x7b' ∧
      (Text.hexDigit d).toLower ≠ 'u' := by decide
  exact hall ⟨d, h⟩

theorem not_has_of_mem_groups {u : Uuid} {g : List Char} (hg : g ∈ u.groups) :
    Text.has (String.ofList g) '-' = false := by
  rw [Text.has, String.toList_ofList, List.contains_eq_mem, decide_eq_false_iff_not]
  intro hmem
  obtain ⟨d, hd, heq⟩ := hexDigit_of_mem_groups hg hmem
  exact (hexDigit_ne hd).1 heq.symm

theorem split_text (u : Uuid) : Text.splitChars '-' u.text.toList = u.groups := by
  have hsplit : Text.split '-' u.text = u.groups.map String.ofList := by
    rw [text_eq]
    refine Text.split_intercalate (by simp [groups]) fun piece hpiece => ?_
    obtain ⟨g, hg, rfl⟩ := List.mem_map.mp hpiece
    exact not_has_of_mem_groups hg
  have hchars := congrArg (List.map String.toList) hsplit
  simpa [Text.split, Function.comp_def] using hchars

/-- The text starts with eight digits and a hyphen. -/
theorem toList_text (u : Uuid) :
    ∃ rest, u.text.toList = (Text.hexFixed 32 u.value).take 8 ++ '-' :: rest := by
  rw [text_eq]
  simp only [groups, List.map_cons, String.intercalate_cons_cons, String.toList_append,
    String.toList_ofList, String.toList_singleton, List.append_assoc, List.singleton_append]
  exact ⟨_, rfl⟩

theorem ungroup?_text (u : Uuid) :
    ungroup? u.text.toList = some (Text.hexFixed 32 u.value) := by
  have hlength := Text.length_hexFixed 32 u.value
  rw [ungroup?, split_text, ← flatten_groups]
  simp [groups, hlength]

/-- The text starts with a digit, so it is in no braces and behind no scheme. -/
theorem unwrap_text (u : Uuid) : unwrap u.text.toList = u.text.toList := by
  obtain ⟨rest, htext⟩ := u.toList_text
  have hlength : 0 < ((Text.hexFixed 32 u.value).take 8).length := by
    rw [List.length_take, Text.length_hexFixed]
    decide
  obtain ⟨c, cs, hfirst⟩ := List.exists_cons_of_length_pos hlength
  have hc : c ∈ Text.hexFixed 32 u.value :=
    List.mem_of_mem_take (hfirst ▸ List.mem_cons_self)
  obtain ⟨d, hd, rfl⟩ := Text.hexDigit_of_mem_hexFixed hc
  obtain ⟨-, hbrace, hscheme⟩ := hexDigit_ne hd
  have hurn : "urn:uuid:".toList = 'u' :: "rn:uuid:".toList := by decide
  rw [unwrap, htext, hfirst]
  simp [hbrace, hscheme, hurn]

theorem read?_text {u : Uuid} (h : u.value < 2 ^ 128) : read? u.text = some u := by
  obtain ⟨rest, htext⟩ := u.toList_text
  have hhyphen : u.text.toList.contains '-' = true := by
    rw [htext, List.contains_eq_mem, decide_eq_true_iff]
    exact List.mem_append_right _ List.mem_cons_self
  have hdigits : ofDigits? (Text.hexFixed 32 u.value) = some u := by
    rw [ofDigits?, Text.foldlM_hexFixed (by omega)]
    rfl
  simp only [read?, hhyphen, Bool.not_true, Bool.and_false, Bool.false_eq_true, if_false,
    unwrap_text, ungroup?_text, Option.bind_some, hdigits]

/-- As many digits as are read fit as many places. -/
theorem value_lt_of_ofDigits? {cs : List Char} {u : Uuid} (h : ofDigits? cs = some u) :
    u.value < 16 ^ cs.length := by
  have hfold : ∀ (cs : List Char) (m n : Nat),
      cs.foldlM (fun n c => (Text.hexValue? c).map (n * 16 + ·)) m = some n →
        n < (m + 1) * 16 ^ cs.length := by
    intro cs
    induction cs with
    | nil =>
        intro m n h
        cases h
        rw [List.length_nil, Nat.pow_zero, Nat.mul_one]
        exact Nat.lt_succ_self m
    | cons c cs ih =>
        intro m n h
        rw [List.foldlM_cons, Option.bind_eq_bind, Option.bind_eq_some_iff] at h
        obtain ⟨first, hfirst, hrest⟩ := h
        obtain ⟨d, hd, rfl⟩ := Option.map_eq_some_iff.mp hfirst
        have hdigit := Text.hexValue?_lt hd
        refine Nat.lt_of_lt_of_le (ih _ n hrest) ?_
        rw [List.length_cons, Nat.pow_succ, Nat.mul_comm (16 ^ cs.length), ← Nat.mul_assoc]
        exact Nat.mul_le_mul_right _ (by omega)
  obtain ⟨n, hn, rfl⟩ := Option.map_eq_some_iff.mp h
  simpa using hfold cs 0 n hn

theorem length_of_ungroup? {cs ds : List Char} (h : ungroup? cs = some ds) : ds.length = 32 := by
  rw [ungroup?] at h
  split at h
  · next a b c d e _ =>
      split at h
      · next hlengths =>
          cases h
          simp only [Bool.and_eq_true, decide_eq_true_eq] at hlengths
          simp only [List.length_append]
          omega
      · cases h
  · cases h

theorem value_lt_of_read? {s : String} {u : Uuid} (h : read? s = some u) : u.value < 2 ^ 128 := by
  rw [read?] at h
  split at h
  · next hplain =>
      rw [Bool.and_eq_true, decide_eq_true_eq] at hplain
      have hvalue := value_lt_of_ofDigits? h
      rw [hplain.1] at hvalue
      omega
  · obtain ⟨ds, hds, hread⟩ := Option.bind_eq_some_iff.mp h
    have hvalue := value_lt_of_ofDigits? hread
    rw [length_of_ungroup? hds] at hvalue
    omega

end Grove.Uuid
