import Mathlib.Data.List.Fold
import Mathlib.Data.List.MinMax
import Mathlib.Logic.Function.Iterate
import Grove.Regex

/-!
# What expressions match

An expression leads from one place of a text to others, and `Regex.Leads` says which, for each
form of an expression by what its parts lead to. Matching carries sets of places through the
expression, and it finds exactly the places that the expression leads to (`mem_advance_iff`). The
places of one text are told apart by how much follows them, so joining sets loses none, and a
repetition that takes nothing comes to no new place, so a star is complete after as many rounds as
there are places.
-/

namespace Grove

namespace Cursor

def text (c : Cursor) : List Char := c.before.reverse ++ c.after

/-- Places of one text with equally much after them are the same. -/
theorem eq_of_text {c d : Cursor} (htext : c.text = d.text)
    (hlength : c.after.length = d.after.length) : c = d := by
  obtain ⟨hbefore, hafter⟩ := List.append_inj' htext hlength
  cases c
  cases d
  cases List.reverse_injective hbefore
  cases hafter
  rfl

theorem mem_merge {t : List Char} {e : Cursor} (fuel : Nat) {cs ds : List Cursor}
    (hfuel : cs.length + ds.length ≤ fuel) (hcs : ∀ c ∈ cs, c.text = t)
    (hds : ∀ d ∈ ds, d.text = t) : e ∈ merge fuel cs ds ↔ e ∈ cs ∨ e ∈ ds := by
  induction fuel generalizing cs ds with
  | zero =>
      obtain ⟨rfl, rfl⟩ : cs = [] ∧ ds = [] := by
        constructor <;> apply List.eq_nil_of_length_eq_zero <;> omega
      simp [merge]
  | succ fuel ih =>
      match cs, ds with
      | [], ds => simp [merge]
      | c :: cs, [] => simp [merge]
      | c :: cs, d :: ds =>
          simp only [List.length_cons] at hfuel
          obtain ⟨hc, hcs'⟩ := List.forall_mem_cons.mp hcs
          obtain ⟨hd, hds'⟩ := List.forall_mem_cons.mp hds
          rw [merge]
          split
          · rw [List.mem_cons, ih (by simp only [List.length_cons]; omega) hcs' hds,
              List.mem_cons, List.mem_cons, or_assoc]
          · split
            · rw [List.mem_cons, ih (by simp only [List.length_cons]; omega) hcs hds',
                List.mem_cons (a := e) (b := d), or_left_comm]
            · -- Equally much follows both places, so they are one.
              have hsame : c = d := eq_of_text (hc.trans hd.symm) (by omega)
              rw [List.mem_cons, ih (by omega) hcs' hds', hsame]
              simp only [List.mem_cons]
              tauto

theorem mem_union {t : List Char} {e : Cursor} {cs ds : List Cursor}
    (hcs : ∀ c ∈ cs, c.text = t) (hds : ∀ d ∈ ds, d.text = t) :
    e ∈ union cs ds ↔ e ∈ cs ∨ e ∈ ds :=
  mem_merge _ (Nat.le_refl _) hcs hds

theorem mem_onward_iff {c : Cursor} (before after : List Char) :
    c ∈ onward before after ↔
      c.text = before.reverse ++ after ∧ c.after.length ≤ after.length := by
  induction after generalizing before with
  | nil =>
      rw [onward, List.mem_singleton]
      constructor
      · rintro rfl
        exact ⟨rfl, Nat.le_refl _⟩
      · rintro ⟨htext, hlength⟩
        exact eq_of_text (d := ⟨before, []⟩) htext (Nat.le_zero.mp hlength)
  | cons a rest ih =>
      have hstep : (a :: before).reverse ++ rest = before.reverse ++ a :: rest := by simp
      rw [onward, List.mem_append, List.mem_singleton, ih, hstep, List.length_cons]
      constructor
      · rintro (⟨htext, hlength⟩ | rfl)
        · exact ⟨htext, Nat.le_succ_of_le hlength⟩
        · exact ⟨rfl, Nat.le_refl _⟩
      · rintro ⟨htext, hlength⟩
        rcases Nat.le_succ_iff.mp hlength with hless | hequal
        · exact .inl ⟨htext, hless⟩
        · exact .inr (eq_of_text (d := ⟨before, a :: rest⟩) htext hequal)

/-- All places of a text. -/
theorem mem_onward_nil {c : Cursor} {t : List Char} : c ∈ onward [] t ↔ c.text = t := by
  rw [mem_onward_iff, List.reverse_nil, List.nil_append, and_iff_left_iff_imp]
  rintro rfl
  rw [text, List.length_append]
  exact Nat.le_add_left _ _

theorem text_step {set : Unicode.CharSet} {c d : Cursor} (h : c.step? set = some d) :
    d.text = c.text ∧ d.after.length + 1 = c.after.length := by
  unfold step? at h
  split at h
  · cases h
  · rename_i a rest hafter
    split at h
    · cases h
      constructor
      · rw [text, text, hafter, List.reverse_cons, List.append_assoc, List.singleton_append]
      · rw [hafter, List.length_cons]
    · cases h

end Cursor

namespace Regex

open Cursor (union)

def Steps (step : Cursor → Cursor → Prop) : Nat → Cursor → Cursor → Prop
  | 0, c, d => d = c
  | n + 1, c, d => ∃ e, step c e ∧ Steps step n e d

/-- Whether a match of the expression may start at the one place and end at the other. -/
def Leads : Regex → Cursor → Cursor → Prop
  | .empty, c, d => d = c
  | .chars set, c, d => c.step? set = some d
  | .look l, c, d => c.satisfies l = true ∧ d = c
  | .cat first second, c, d => ∃ e, first.Leads c e ∧ second.Leads e d
  | .alt first second, c, d => first.Leads c d ∨ second.Leads c d
  | .repeated least most body, c, d =>
    ∃ more, (∀ m, most = some m → more ≤ m - least) ∧ Steps body.Leads (least + more) c d

/-! ## Steps -/

section

variable {step : Cursor → Cursor → Prop}

theorem steps_add {m n : Nat} {c d : Cursor} :
    Steps step (m + n) c d ↔ ∃ e, Steps step m c e ∧ Steps step n e d := by
  induction m generalizing c with
  | zero => simp [Steps]
  | succ m ih =>
      rw [Nat.succ_add, Steps]
      simp only [ih, Steps]
      constructor
      · rintro ⟨e, hstep, e', hm, hn⟩
        exact ⟨e', ⟨e, hstep, hm⟩, hn⟩
      · rintro ⟨e', ⟨e, hstep, hm⟩, hn⟩
        exact ⟨e, hstep, e', hm, hn⟩

/-- A step stays in the text and does not go back. -/
def Onward (step : Cursor → Cursor → Prop) : Prop :=
  ∀ c d, step c d → d.text = c.text ∧ d.after.length ≤ c.after.length

theorem Onward.steps (h : Onward step) (n : Nat) : Onward (Steps step n) := by
  induction n with
  | zero =>
      rintro c d rfl
      exact ⟨rfl, Nat.le_refl _⟩
  | succ n ih =>
      rintro c d ⟨e, hstep, hsteps⟩
      obtain ⟨htext, hlength⟩ := h c e hstep
      obtain ⟨htext', hlength'⟩ := ih e d hsteps
      exact ⟨htext'.trans htext, Nat.le_trans hlength' hlength⟩

/-- Steps that stay where they are can be left out, and then there are no more of them than
characters ahead. -/
theorem Onward.exists_short (h : Onward step) {n : Nat} {c d : Cursor} (hsteps : Steps step n c d) :
    ∃ m, m ≤ n ∧ m ≤ c.after.length ∧ Steps step m c d := by
  induction n generalizing c with
  | zero => exact ⟨0, Nat.le_refl _, Nat.zero_le _, hsteps⟩
  | succ n ih =>
      obtain ⟨e, hstep, hrest⟩ := hsteps
      obtain ⟨m, hmn, hme, hshort⟩ := ih hrest
      obtain ⟨htext, hlength⟩ := h c e hstep
      by_cases hstays : e = c
      · subst hstays
        exact ⟨m, Nat.le_succ_of_le hmn, hme, hshort⟩
      · have hless : e.after.length < c.after.length :=
          Nat.lt_of_le_of_ne hlength fun heq => hstays (Cursor.eq_of_text htext heq)
        exact ⟨m + 1, by omega, by omega, e, hstep, hshort⟩

end

theorem Onward.or_eq {step : Cursor → Cursor → Prop} (h : Onward step) :
    Onward fun c d => d = c ∨ step c d := by
  rintro c d (rfl | hstep)
  · exact ⟨rfl, Nat.le_refl _⟩
  · exact h c d hstep

theorem leads_onward (r : Regex) : Onward r.Leads := by
  induction r with
  | empty =>
      rintro c d rfl
      exact ⟨rfl, Nat.le_refl _⟩
  | chars set =>
      intro c d h
      obtain ⟨htext, hlength⟩ := Cursor.text_step h
      exact ⟨htext, by omega⟩
  | look l =>
      rintro c d ⟨-, rfl⟩
      exact ⟨rfl, Nat.le_refl _⟩
  | cat first second ihfirst ihsecond =>
      rintro c d ⟨e, hfirst, hsecond⟩
      obtain ⟨htext, hlength⟩ := ihfirst c e hfirst
      obtain ⟨htext', hlength'⟩ := ihsecond e d hsecond
      exact ⟨htext'.trans htext, Nat.le_trans hlength' hlength⟩
  | alt first second ihfirst ihsecond =>
      rintro c d (h | h)
      · exact ihfirst c d h
      · exact ihsecond c d h
  | repeated least most body ih =>
      rintro c d ⟨more, -, hsteps⟩
      exact ih.steps _ c d hsteps

/-! ## Rounds -/

theorem iterate_eq (f : List Cursor → List Cursor) (n : Nat) (cs : List Cursor) :
    iterate f n cs = f^[n] cs := by
  induction n generalizing cs with
  | zero => rfl
  | succ n ih =>
      rw [iterate]
      split
      · rename_i hfixed
        exact (Function.iterate_fixed hfixed (n + 1)).symm
      · exact ih (f cs)

/-- The function carries sets of places of the text to where the steps lead. -/
def Carries (t : List Char) (f : List Cursor → List Cursor) (step : Cursor → Cursor → Prop) :
    Prop :=
  ∀ cs, (∀ c ∈ cs, c.text = t) → ∀ d, d ∈ f cs ↔ ∃ c ∈ cs, step c d

section

variable {t : List Char} {f : List Cursor → List Cursor} {step : Cursor → Cursor → Prop}

theorem Carries.text (h : Carries t f step) (honward : Onward step) {cs : List Cursor}
    (hcs : ∀ c ∈ cs, c.text = t) : ∀ d ∈ f cs, d.text = t := by
  intro d hd
  obtain ⟨c, hc, hstep⟩ := (h cs hcs d).mp hd
  exact (honward c d hstep).1.trans (hcs c hc)

theorem Carries.iterate (h : Carries t f step) (honward : Onward step) (n : Nat) :
    Carries t (Regex.iterate f n) (Steps step n) := by
  intro cs hcs d
  rw [iterate_eq]
  induction n generalizing cs with
  | zero => simp [Steps]
  | succ n ih =>
      rw [Function.iterate_succ_apply, ih (f cs) (h.text honward hcs)]
      simp only [h cs hcs, Steps]
      constructor
      · rintro ⟨e, ⟨c, hc, hstep⟩, hsteps⟩
        exact ⟨c, hc, e, hstep, hsteps⟩
      · rintro ⟨c, hc, e, hstep, hsteps⟩
        exact ⟨e, ⟨c, hc, hstep⟩, hsteps⟩

/-- One round more of a star takes no step or one. -/
theorem Carries.union (h : Carries t f step) (honward : Onward step) :
    Carries t (fun ds => union ds (f ds)) fun c d => d = c ∨ step c d := by
  intro cs hcs d
  rw [Cursor.mem_union hcs (h.text honward hcs), h cs hcs]
  constructor
  · rintro (hd | ⟨c, hc, hstep⟩)
    · exact ⟨d, hd, .inl rfl⟩
    · exact ⟨c, hc, .inr hstep⟩
  · rintro ⟨c, hc, rfl | hstep⟩
    · exact .inl hc
    · exact .inr ⟨c, hc, hstep⟩

/-- Rounds of no step or one are as many steps or fewer. -/
theorem steps_or_eq {n : Nat} {c d : Cursor} :
    Steps (fun c d => d = c ∨ step c d) n c d ↔ ∃ m ≤ n, Steps step m c d := by
  induction n generalizing c with
  | zero => simp [Steps]
  | succ n ih =>
      simp only [Steps, ih]
      constructor
      · rintro ⟨e, rfl | hstep, m, hm, hsteps⟩
        · exact ⟨m, Nat.le_succ_of_le hm, hsteps⟩
        · exact ⟨m + 1, Nat.succ_le_succ hm, e, hstep, hsteps⟩
      · rintro ⟨m, hm, hsteps⟩
        cases m with
        | zero => exact ⟨c, .inl rfl, 0, Nat.zero_le _, hsteps⟩
        | succ m =>
            obtain ⟨e, hstep, hsteps⟩ := hsteps
            exact ⟨e, .inr hstep, m, Nat.le_of_succ_le_succ hm, hsteps⟩

end

/-- The rounds of a repetition after the least number of steps. -/
def rounds (least : Nat) (most : Option Nat) (longest : Nat) : Nat :=
  match most with
  | none => longest + 1
  | some most => min (most - least) (longest + 1)

/-- From a place with no more ahead, the rounds are all the steps there may be. -/
theorem Onward.steps_rounds {step : Cursor → Cursor → Prop} (h : Onward step) {least : Nat}
    {most : Option Nat} {longest : Nat} {c d : Cursor} (hlongest : c.after.length ≤ longest) :
    (∃ m ≤ rounds least most longest, Steps step m c d) ↔
      ∃ more, (∀ m, most = some m → more ≤ m - least) ∧ Steps step more c d := by
  constructor
  · rintro ⟨m, hm, hsteps⟩
    refine ⟨m, ?_, hsteps⟩
    rintro _ rfl
    exact Nat.le_trans hm (Nat.min_le_left _ _)
  · rintro ⟨more, hmost, hsteps⟩
    obtain ⟨m, hmore, hshort, hsteps⟩ := h.exists_short hsteps
    have hfew : m ≤ longest + 1 := Nat.le_succ_of_le (Nat.le_trans hshort hlongest)
    refine ⟨m, ?_, hsteps⟩
    cases most with
    | none => exact hfew
    | some most => exact Nat.le_min.mpr ⟨Nat.le_trans hmore (hmost most rfl), hfew⟩

/-! ## Matching -/

/-- Matching finds exactly the places that the expression leads to. -/
theorem advance_carries (r : Regex) (t : List Char) : Carries t r.advance r.Leads := by
  induction r with
  | empty => intro cs hcs d; simp [advance, Leads]
  | chars set => intro cs hcs d; simp [advance, Leads]
  | look l =>
      intro cs hcs d
      rw [advance, List.mem_filter]
      constructor
      · rintro ⟨hd, hl⟩
        exact ⟨d, hd, hl, rfl⟩
      · rintro ⟨c, hc, hl, rfl⟩
        exact ⟨hc, hl⟩
  | cat first second ihfirst ihsecond =>
      intro cs hcs d
      rw [advance, ihsecond _ (ihfirst.text first.leads_onward hcs)]
      simp only [ihfirst cs hcs, Leads]
      constructor
      · rintro ⟨e, ⟨c, hc, hfirst⟩, hsecond⟩
        exact ⟨c, hc, e, hfirst, hsecond⟩
      · rintro ⟨c, hc, e, hfirst, hsecond⟩
        exact ⟨e, ⟨c, hc, hfirst⟩, hsecond⟩
  | alt first second ihfirst ihsecond =>
      intro cs hcs d
      rw [advance, Cursor.mem_union (ihfirst.text first.leads_onward hcs)
        (ihsecond.text second.leads_onward hcs), ihfirst cs hcs, ihsecond cs hcs]
      simp only [Leads, and_or_left, exists_or]
  | repeated least most body ih =>
      intro cs hcs d
      have hbody := body.leads_onward
      have hleast := ih.iterate hbody least
      let start := iterate body.advance least cs
      let longest := (start.map fun c => c.after.length).foldl max 0
      have hlongest {s : Cursor} (hs : s ∈ start) : s.after.length ≤ longest := by
        change _ ≤ List.foldl _ _ _
        rw [List.foldl_eq_foldr]
        exact List.le_max_of_le' 0 (List.mem_map_of_mem hs) (Nat.le_refl _)
      have hadvance : (Regex.repeated least most body).advance cs =
          iterate (fun ds => union ds (body.advance ds)) (rounds least most longest) start := by
        cases most <;> rfl
      have hrounds := (ih.union hbody).iterate hbody.or_eq (rounds least most longest) start
        (hleast.text (hbody.steps least) hcs) d
      rw [hadvance, hrounds]
      simp only [steps_or_eq, Leads, steps_add]
      constructor
      · rintro ⟨s, hs, hsteps⟩
        obtain ⟨more, hmost, hsteps⟩ := (hbody.steps_rounds (hlongest hs)).mp hsteps
        obtain ⟨c, hc, hstart⟩ := (hleast cs hcs s).mp hs
        exact ⟨c, hc, more, hmost, s, hstart, hsteps⟩
      · rintro ⟨c, hc, more, hmost, s, hstart, hsteps⟩
        have hs := (hleast cs hcs s).mpr ⟨c, hc, hstart⟩
        exact ⟨s, hs, (hbody.steps_rounds (hlongest hs)).mpr ⟨more, hmost, hsteps⟩⟩

/-- An expression matches in a text if it leads from a place of the text to a place. -/
theorem isMatch_iff {r : Regex} {text : String} :
    r.isMatch text = true ↔ ∃ c d, c.text = text.toList ∧ r.Leads c d := by
  have hmem (d : Cursor) := advance_carries r text.toList (Cursor.onward [] text.toList)
    (fun c hc => Cursor.mem_onward_nil.mp hc) d
  rw [isMatch, Bool.not_eq_true', List.isEmpty_eq_false_iff_exists_mem]
  simp only [hmem, Cursor.mem_onward_nil]
  exact exists_comm

/-! ## Sequences and alternatives -/

theorem leads_sequence_cons {r : Regex} {rs : List Regex} {c d : Cursor} :
    (sequence (r :: rs)).Leads c d ↔ ∃ e, r.Leads c e ∧ (sequence rs).Leads e d := by
  cases rs with
  | nil =>
      constructor
      · intro h
        exact ⟨d, h, rfl⟩
      · rintro ⟨e, h, rfl⟩
        exact h
  | cons s rs => rfl

theorem leads_sequence_append {rs ss : List Regex} {c d : Cursor} :
    (sequence (rs ++ ss)).Leads c d ↔ ∃ e, (sequence rs).Leads c e ∧ (sequence ss).Leads e d := by
  induction rs generalizing c with
  | nil => simp [sequence, Leads]
  | cons r rs ih =>
      simp only [List.cons_append, leads_sequence_cons, ih]
      constructor
      · rintro ⟨e, hr, e', hrs, hss⟩
        exact ⟨e', ⟨e, hr, hrs⟩, hss⟩
      · rintro ⟨e', ⟨e, hr, hrs⟩, hss⟩
        exact ⟨e, hr, e', hrs, hss⟩

theorem leads_oneOf {rs : List Regex} (hrs : rs ≠ []) {c d : Cursor} :
    (oneOf rs).Leads c d ↔ ∃ r ∈ rs, r.Leads c d := by
  induction rs with
  | nil => exact absurd rfl hrs
  | cons r rs ih =>
      cases rs with
      | nil => simp [oneOf]
      | cons s rs =>
          have hrest := ih (List.cons_ne_nil s rs)
          refine (or_congr_right hrest).trans ?_
          exact (List.exists_mem_cons_iff (·.Leads c d) r (s :: rs)).symm

end Regex

end Grove
