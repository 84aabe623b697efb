import Grove.Proofs.Outcome
import Grove.Regex.Escape

/-!
# A dollar sign behind a pattern

Reading goes from left to right, and what it makes of a text does not depend on a dollar sign
behind it, unless the sign comes to be read itself. Readers are followed over two texts at once,
of which one may have the sign at its end: they find the same in both, and what they leave of the
texts differs in the sign alone (`Same`). There is one way for it to get lost in between. In
extended mode a comment at the end of a pattern takes all that follows it, and a comment begins
with a `#`.

That a reader leaves no more than it was given comes along with it, since the number of characters
left bounds the rounds of every loop.
-/

namespace Grove.Regex

/-- Two texts of which the second has a dollar sign at its end, where `signed` allows that, or is
the same, where `hidden` allows that. A `#` in them allows the latter. -/
inductive Ending (hidden signed : Prop) : List Char → List Char → Prop where
  | same : hidden → Ending hidden signed [] []
  | sign : signed → Ending hidden signed [] ['$']
  | cons (c : Char) {cs cs' : List Char} : (c = '#' → hidden) → Ending hidden signed cs cs' →
      Ending hidden signed (c :: cs) (c :: cs')

variable {hidden signed : Prop} {cs cs' : List Char}

namespace Ending

theorem refl (cs : List Char) : Ending True signed cs cs := by
  induction cs with
  | nil => exact .same trivial
  | cons c cs ih => exact .cons c (fun _ => trivial) ih

theorem append_sign (hcomment : '#' ∈ cs → hidden) : Ending hidden True cs (cs ++ ['$']) := by
  induction cs with
  | nil => exact .sign trivial
  | cons c cs ih =>
      refine .cons c (fun hc => hcomment ?_) (ih fun hmem => hcomment ?_)
      · rw [hc]
        exact List.mem_cons_self
      · exact List.mem_cons_of_mem c hmem

theorem length_le (h : Ending hidden signed cs cs') : cs.length ≤ cs'.length := by
  induction h with
  | same _ => exact Nat.le_refl _
  | sign _ => exact Nat.zero_le _
  | cons c _ _ ih => exact Nat.succ_le_succ ih

theorem tail (h : Ending hidden signed (c :: cs) (c' :: cs')) : Ending hidden signed cs cs' := by
  cases h with
  | cons c _ h => exact h

theorem dropWhile {p : Char → Bool} (hp : p '$' = false) (h : Ending hidden signed cs cs') :
    Ending hidden signed (cs.dropWhile p) (cs'.dropWhile p) := by
  induction h with
  | same hhidden => exact .same hhidden
  | sign hsigned =>
      rw [List.dropWhile_cons_of_neg (by simp [hp])]
      exact .sign hsigned
  | cons c hc h ih =>
      rw [List.dropWhile_cons, List.dropWhile_cons]
      split
      · exact ih
      · exact .cons c hc h

/-- A dollar sign in a comment is passed over with it. -/
theorem skipFrom (h : Ending hidden signed cs cs') {inComment : Bool}
    (hcomment : inComment = true → hidden) :
    Ending hidden signed (Regex.skip inComment cs) (Regex.skip inComment cs') := by
  induction h generalizing inComment with
  | same hhidden => exact .same hhidden
  | sign hsigned =>
      cases inComment with
      | false => exact .sign hsigned
      | true => exact .same (hcomment rfl)
  | cons c hc h ih =>
      rw [Regex.skip, Regex.skip]
      split
      · exact ih fun _ => hcomment ‹_›
      · split
        · exact ih nofun
        · split
          · exact ih fun _ => hc ‹_›
          · exact .cons c hc h

theorem skip (h : Ending hidden signed cs cs') (f : Flags) :
    Ending hidden signed (f.skip cs) (f.skip cs') := by
  unfold Flags.skip
  split
  · exact h.skipFrom nofun
  · exact h

end Ending

theorem skip_length_le (inComment : Bool) (cs : List Char) :
    (skip inComment cs).length ≤ cs.length := by
  induction cs generalizing inComment with
  | nil => exact Nat.le_refl _
  | cons c cs ih =>
      rw [skip]
      split
      · exact Nat.le_succ_of_le (ih _)
      · split
        · exact Nat.le_succ_of_le (ih _)
        · split
          · exact Nat.le_succ_of_le (ih _)
          · exact Nat.le_refl _

theorem Flags.skip_length_le (f : Flags) (cs : List Char) : (f.skip cs).length ≤ cs.length := by
  unfold Flags.skip
  split
  · exact Regex.skip_length_le false cs
  · exact Nat.le_refl _

/-- What the texts are after what the flags pass over. -/
theorem Ending.skip_cases (h : Ending hidden signed cs cs') (f : Flags) :
    (f.skip cs = [] ∧ f.skip cs' = [] ∧ hidden) ∨
      (f.skip cs = [] ∧ f.skip cs' = ['$'] ∧ signed) ∨
      ∃ c ds ds', f.skip cs = c :: ds ∧ f.skip cs' = c :: ds' ∧
        Ending hidden signed (c :: ds) (c :: ds') ∧ ds.length < cs.length := by
  have hskip := h.skip f
  have hlength := f.skip_length_le cs
  generalize f.skip cs = ds at *
  generalize f.skip cs' = ds' at *
  cases hskip with
  | same hhidden => exact .inl ⟨rfl, rfl, hhidden⟩
  | sign hsigned => exact .inr (.inl ⟨rfl, rfl, hsigned⟩)
  | cons c hc hrest => exact .inr (.inr ⟨c, _, _, rfl, rfl, .cons c hc hrest, hlength⟩)

/-! ## Readers -/

section

variable {α β γ : Type} {n m : Nat} {Q : α → α → Prop} {R : β → β → Prop}

/-- What is read of the first text is read of the second, and what is left of the first is no
longer than `n` and differs from what is left of the second in the sign alone. -/
def Same (hidden signed : Prop) (n : Nat) (Q : α → α → Prop)
    (x x' : Except RegexError (α × List Char)) : Prop :=
  ∀ a rest, x = .ok (a, rest) →
    ∃ a' rest', x' = .ok (a', rest') ∧ Q a a' ∧ Ending hidden signed rest rest' ∧ rest.length ≤ n

namespace Same

variable {x x' y y' : Except RegexError (α × List Char)}

theorem error {e : RegexError} : Same hidden signed n Q (.error e) x' := nofun

theorem ok {a a' : α} {rest rest' : List Char} (hQ : Q a a') (h : Ending hidden signed rest rest')
    (hn : rest.length ≤ n) : Same hidden signed n Q (.ok (a, rest)) (.ok (a', rest')) := by
  rintro _ _ ⟨⟩
  exact ⟨a', rest', rfl, hQ, h, hn⟩

theorem mono (h : Same hidden signed m Q x x') (hmn : m ≤ n) : Same hidden signed n Q x x' := by
  intro a rest hx
  obtain ⟨a', rest', hx', hQ, hend, hlength⟩ := h a rest hx
  exact ⟨a', rest', hx', hQ, hend, Nat.le_trans hlength hmn⟩

theorem bind {g g' : α × List Char → Except RegexError (β × List Char)}
    (h : Same hidden signed m Q x x')
    (hnext : ∀ a a' rest rest', Q a a' → Ending hidden signed rest rest' → rest.length ≤ m →
      Same hidden signed n R (g (a, rest)) (g' (a', rest'))) :
    Same hidden signed n R (x >>= g) (x' >>= g') := by
  intro b last hbind
  obtain ⟨⟨a, rest⟩, hx, hb⟩ := bind_eq_ok.mp hbind
  obtain ⟨a', rest', hx', hQ, hend, hlength⟩ := h a rest hx
  obtain ⟨b', last', hb', hfound⟩ := hnext a a' rest rest' hQ hend hlength b last hb
  exact ⟨b', last', bind_eq_ok.mpr ⟨_, hx', hb'⟩, hfound⟩

/-- After a step that reads nothing. -/
theorem after {z z' : Except RegexError γ} {S : γ → γ → Prop}
    {g g' : γ → Except RegexError (α × List Char)}
    (hz : ∀ c, z = .ok c → ∃ c', z' = .ok c' ∧ S c c')
    (h : ∀ c c', S c c' → Same hidden signed n Q (g c) (g' c')) :
    Same hidden signed n Q (z >>= g) (z' >>= g') := by
  intro b last hbind
  obtain ⟨c, hc, hb⟩ := bind_eq_ok.mp hbind
  obtain ⟨c', hc', hS⟩ := hz c hc
  obtain ⟨b', last', hb', hfound⟩ := h c c' hS b last hb
  exact ⟨b', last', bind_eq_ok.mpr ⟨c', hc', hb'⟩, hfound⟩

/-- After a step that does not depend on the texts. -/
theorem after_eq {z : Except RegexError γ} {g g' : γ → Except RegexError (α × List Char)}
    (h : ∀ c, Same hidden signed n Q (g c) (g' c)) :
    Same hidden signed n Q (z >>= g) (z >>= g') :=
  after (S := Eq) (fun c hc => ⟨c, hc, rfl⟩) fun c _ hc => hc ▸ h c

theorem map (g g' : α → β) (h : Same hidden signed n Q x x')
    (hg : ∀ a a', Q a a' → R (g a) (g' a')) :
    Same hidden signed n R (x.map fun p => (g p.1, p.2)) (x'.map fun p => (g' p.1, p.2)) := by
  intro b last hmap
  obtain ⟨⟨a, rest⟩, hx, ⟨⟩⟩ := map_eq_ok.mp hmap
  obtain ⟨a', rest', hx', hQ, hfound⟩ := h a rest hx
  exact ⟨g' a', rest', map_eq_ok.mpr ⟨_, hx', rfl⟩, hg a a' hQ, hfound⟩

theorem ite {p : Prop} [Decidable p] (h : p → Same hidden signed n Q x x')
    (h' : ¬p → Same hidden signed n Q y y') :
    Same hidden signed n Q (if p then x else y) (if p then x' else y') := by
  by_cases hp : p
  · rw [if_pos hp, if_pos hp]
    exact h hp
  · rw [if_neg hp, if_neg hp]
    exact h' hp

end Same

end

/-- The characters with the property at the start of a text, with what the flags pass over after
each, and what follows them. -/
def taken (f : Flags) (p : Char → Bool) : Nat → List Char → List Char × List Char
  | fuel + 1, c :: cs =>
    if p c then
      let (ds, rest) := taken f p fuel (f.skip cs)
      (c :: ds, rest)
    else ([], c :: cs)
  | _, cs => ([], cs)

theorem taken_end {f : Flags} {p : Char → Bool} (hp : p '$' = false) (n : Nat) {n' : Nat}
    (h : Ending hidden signed [] cs') (hn' : cs'.length ≤ n') :
    taken f p n [] = ([], []) ∧ taken f p n' cs' = ([], cs') := by
  refine ⟨by cases n <;> rfl, ?_⟩
  cases h with
  | same _ => cases n' <;> rfl
  | sign _ =>
      obtain ⟨n', rfl⟩ := Nat.exists_eq_add_of_le' hn'
      simp [taken, hp]

theorem taken_same {f : Flags} {p : Char → Bool} (hp : p '$' = false) {n n' : Nat}
    (h : Ending hidden signed cs cs') (hn : cs.length ≤ n) (hn' : cs'.length ≤ n') :
    ∃ ds rest rest', taken f p n cs = (ds, rest) ∧ taken f p n' cs' = (ds, rest') ∧
      Ending hidden signed rest rest' ∧ rest.length ≤ cs.length := by
  induction n generalizing n' cs cs' with
  | zero =>
      cases List.eq_nil_of_length_eq_zero (Nat.le_zero.mp hn)
      obtain ⟨hnil, hend⟩ := taken_end (f := f) hp 0 h hn'
      exact ⟨[], [], cs', hnil, hend, h, Nat.le_refl _⟩
  | succ n ih =>
      cases cs with
      | nil =>
          obtain ⟨hnil, hend⟩ := taken_end (f := f) hp (n + 1) h hn'
          exact ⟨[], [], cs', hnil, hend, h, Nat.le_refl _⟩
      | cons c cs =>
          cases h with
          | @cons _ _ cs' hc h =>
              obtain ⟨n', rfl⟩ := Nat.exists_eq_add_of_le' (Nat.le_trans (Nat.succ_pos _) hn')
              rw [taken, taken]
              split
              · have hskip := Nat.le_trans (f.skip_length_le cs) (Nat.le_of_succ_le_succ hn)
                have hskip' := Nat.le_trans (f.skip_length_le cs') (Nat.le_of_succ_le_succ hn')
                obtain ⟨ds, rest, rest', htaken, htaken', hend, hlength⟩ :=
                  ih (h.skip f) hskip hskip'
                rw [htaken, htaken']
                refine ⟨c :: ds, rest, rest', rfl, rfl, hend, ?_⟩
                exact Nat.le_succ_of_le (Nat.le_trans hlength (f.skip_length_le cs))
              · exact ⟨[], _, _, rfl, rfl, .cons c hc h, Nat.le_refl _⟩

end Grove.Regex
