import Grove.Proofs.Regex.Escape
import Grove.Regex.Class

/-!
# Classes before a dollar sign

What a bracketed class stands for does not depend on a dollar sign behind the pattern. An open
class at the end of a pattern is refused, and so the sign never comes to stand in one.
-/

namespace Grove.Regex

variable {hidden signed : Prop} {f : Flags} {cs cs' : List Char}

/-! ## Named classes -/

theorem cutAt_cons (separator c : Char) (cs : List Char) :
    Text.cutAt separator (c :: cs) = if c = separator then some ([], cs)
      else (Text.cutAt separator cs).map fun p => (c :: p.1, p.2) := by
  unfold Text.cutAt
  by_cases hc : c = separator
  · simp [hc]
  · simp only [ne_eq, hc, not_false_eq_true, decide_true, List.dropWhile_cons_of_pos,
      List.takeWhile_cons_of_pos, if_false]
    split <;> rfl

theorem cutAt_same {separator : Char} (hseparator : separator ≠ '$')
    (h : Ending hidden signed cs cs') :
    (Text.cutAt separator cs = none ∧ Text.cutAt separator cs' = none) ∨
      ∃ name rest rest', Text.cutAt separator cs = some (name, rest) ∧
        Text.cutAt separator cs' = some (name, rest') ∧ Ending hidden signed rest rest' ∧
        rest.length ≤ cs.length := by
  induction h with
  | same _ => exact .inl ⟨rfl, rfl⟩
  | sign _ =>
      refine .inl ⟨rfl, ?_⟩
      rw [cutAt_cons, if_neg hseparator.symm]
      rfl
  | cons c _ h ih =>
      rw [cutAt_cons, cutAt_cons]
      split
      · exact .inr ⟨[], _, _, rfl, rfl, h, Nat.le_succ _⟩
      · rcases ih with ⟨hnone, hnone'⟩ | ⟨name, rest, rest', hsome, hsome', hend, hlength⟩
        · rw [hnone, hnone']
          exact .inl ⟨rfl, rfl⟩
        · rw [hsome, hsome']
          exact .inr ⟨c :: name, rest, rest', rfl, rfl, hend, Nat.le_succ_of_le hlength⟩

def begins (c : Char) (cs : List Char) : Bool := cs.head? == some c

theorem Ending.begins_cases {c : Char} (hc : c ≠ '$') (h : Ending hidden signed cs cs') :
    (begins c cs = false ∧ begins c cs' = false) ∨
      ∃ ds ds', cs = c :: ds ∧ cs' = c :: ds' ∧ Ending hidden signed ds ds' := by
  cases h with
  | same _ => exact .inl ⟨rfl, rfl⟩
  | sign _ => exact .inl ⟨rfl, by simp [begins, hc.symm]⟩
  | cons b _ h =>
      by_cases hb : b = c
      · subst hb
        exact .inr ⟨_, _, rfl, rfl, h⟩
      · exact .inl ⟨by simp [begins, hb], by simp [begins, hb]⟩

theorem Ending.begins_eq {c : Char} (hc : c ≠ '$') (h : Ending hidden signed cs cs') :
    begins c cs' = begins c cs := by
  rcases h.begins_cases hc with ⟨hplain, hplain'⟩ | ⟨ds, ds', rfl, rfl, -⟩
  · rw [hplain, hplain']
  · rfl

theorem className_eq (negated : Bool) (cs : List Char) :
    className? negated cs = (Text.cutAt ':' cs).bind fun p =>
      if begins ']' p.2 then
        (asciiClass? (String.ofList p.1)).map fun s => (negated, s, p.2.tail)
      else none := by
  unfold className?
  rcases Text.cutAt ':' cs with _ | ⟨name, _ | ⟨b, rest⟩⟩
  · rfl
  · rfl
  by_cases hb : b = ']'
  · cases hclass : asciiClass? (String.ofList name) <;> simp [begins, hb, hclass]
  · simp [begins, hb]

theorem namedClass_eq (cs : List Char) :
    namedClass? cs =
      if begins ':' cs then
        if begins '^' cs.tail then className? true cs.tail.tail else className? false cs.tail
      else none := by
  rcases cs with _ | ⟨a, cs⟩
  · rfl
  by_cases ha : a = ':'
  · subst ha
    rcases cs with _ | ⟨b, cs⟩
    · rfl
    by_cases hb : b = '^'
    · subst hb
      rfl
    · simp [namedClass?, begins, hb]
  · simp [namedClass?, begins, ha]

theorem className_same (h : Ending hidden signed cs cs') (negated : Bool) :
    (className? negated cs = none ∧ className? negated cs' = none) ∨
      ∃ s rest rest', className? negated cs = some (negated, s, rest) ∧
        className? negated cs' = some (negated, s, rest') ∧ Ending hidden signed rest rest' ∧
        rest.length ≤ cs.length := by
  rw [className_eq, className_eq]
  rcases cutAt_same (show ':' ≠ '$' by decide) h with
    ⟨hnone, hnone'⟩ | ⟨name, rest, rest', hsome, hsome', hend, hlength⟩
  · rw [hnone, hnone']
    exact .inl ⟨rfl, rfl⟩
  · rw [hsome, hsome', Option.bind_some, Option.bind_some]
    rcases hend.begins_cases (show ']' ≠ '$' by decide) with
      ⟨hopen, hopen'⟩ | ⟨last, last', rfl, rfl, hlast⟩
    · rw [hopen, hopen']
      exact .inl ⟨rfl, rfl⟩
    · cases asciiClass? (String.ofList name) with
      | none => exact .inl ⟨rfl, rfl⟩
      | some s => exact .inr ⟨s, last, last', rfl, rfl, hlast, Nat.le_of_lt hlength⟩

theorem namedClass_same (h : Ending hidden signed cs cs') :
    (namedClass? cs = none ∧ namedClass? cs' = none) ∨
      ∃ negated s rest rest', namedClass? cs = some (negated, s, rest) ∧
        namedClass? cs' = some (negated, s, rest') ∧ Ending hidden signed rest rest' ∧
        rest.length ≤ cs.length := by
  rw [namedClass_eq, namedClass_eq]
  rcases h.begins_cases (show ':' ≠ '$' by decide) with
    ⟨hplain, hplain'⟩ | ⟨ds, ds', rfl, rfl, hd⟩
  · rw [hplain, hplain']
    exact .inl ⟨rfl, rfl⟩
  · rw [show begins ':' (':' :: ds) = true from rfl, show begins ':' (':' :: ds') = true from rfl,
      List.tail_cons, List.tail_cons]
    rcases hd.begins_cases (show '^' ≠ '$' by decide) with
      ⟨hplain, hplain'⟩ | ⟨es, es', rfl, rfl, he⟩
    · rw [hplain, hplain']
      rcases className_same hd false with hnone | ⟨s, rest, rest', hs, hs', hend, hlength⟩
      · exact .inl hnone
      · exact .inr ⟨false, s, rest, rest', hs, hs', hend, Nat.le_succ_of_le hlength⟩
    · rcases className_same he true with hnone | ⟨s, rest, rest', hs, hs', hend, hlength⟩
      · exact .inl hnone
      · refine .inr ⟨true, s, rest, rest', hs, hs', hend, ?_⟩
        exact Nat.le_succ_of_le (Nat.le_succ_of_le hlength)

/-! ## The start of a class -/

theorem more_eq_taken (literal : Char → ClassPart) (n : Nat) (cs : List Char) :
    openClass.more f literal n cs =
      ((taken f (· == '-') n cs).1.map literal, (taken f (· == '-') n cs).2) := by
  induction n generalizing cs with
  | zero => rfl
  | succ n ih =>
      cases cs with
      | nil => rfl
      | cons c cs =>
          by_cases hc : c = '-'
          · subst hc
            rw [openClass.more, taken, ih]
            rfl
          · rw [openClass.more, taken]
            · simp [hc]
            · rintro _ _ ⟨⟩ ⟨⟩
              exact hc rfl

theorem hyphens_same (h : Ending hidden signed cs cs') (negated : Bool)
    (literal : Char → ClassPart) :
    ∃ parts rest rest',
      openClass.hyphens f negated literal cs.length cs = (negated, parts, rest) ∧
      openClass.hyphens f negated literal cs'.length cs' = (negated, parts, rest') ∧
      Ending hidden signed rest rest' ∧ rest.length ≤ cs.length := by
  obtain ⟨ds, rest, rest', hds, hds', hend, hlength⟩ :=
    taken_same (f := f) (p := (· == '-')) (by decide) h (Nat.le_refl _) (Nat.le_refl _)
  rcases h.begins_cases (show ']' ≠ '$' by decide) with
    ⟨hplain, hplain'⟩ | ⟨ds, ds', rfl, rfl, hd⟩
  · have hnext {cs : List Char} (hcs : begins ']' cs = false) (es : List Char) :
        cs = ']' :: es → False := by
      rintro rfl
      cases hcs
    rw [openClass.hyphens, openClass.hyphens, more_eq_taken, more_eq_taken, hds, hds']
    · exact ⟨_, _, _, rfl, rfl, hend, hlength⟩
    · exact hnext hplain'
    · exact hnext hplain
  · exact ⟨_, _, _, rfl, rfl, hd.skip f, Nat.le_succ_of_le (f.skip_length_le _)⟩

theorem openClass_plain {c : Char} {ds : List Char} (hs : f.skip cs = c :: ds) (hc : c ≠ '^') :
    openClass f cs = openClass.hyphens f false (fun c => ⟨Unicode.CharSet.single c.toNat, 0⟩)
      (c :: ds).length (c :: ds) := by
  unfold openClass
  rw [hs]
  split
  rename_i heq
  split at heq
  · rename_i heq'
    cases heq'
    exact (hc rfl).elim
  · cases heq
    rfl

theorem openClass_same (h : Ending hidden signed cs cs') :
    ∃ negated parts rest rest', openClass f cs = (negated, parts, rest) ∧
      openClass f cs' = (negated, parts, rest') ∧ Ending hidden signed rest rest' ∧
      rest.length ≤ cs.length := by
  rcases h.skip_cases f with
    ⟨hs, hs', hhidden⟩ | ⟨hs, hs', hsigned⟩ | ⟨c, ds, ds', hs, hs', hd, hless⟩
  · unfold openClass
    rw [hs, hs']
    exact ⟨false, [], [], [], rfl, rfl, .same hhidden, Nat.zero_le _⟩
  · unfold openClass
    rw [hs, hs']
    exact ⟨false, [], [], ['$'], rfl, rfl, .sign hsigned, Nat.zero_le _⟩
  · by_cases hc : c = '^'
    · subst hc
      unfold openClass
      rw [hs, hs']
      obtain ⟨parts, rest, rest', hopen, hopen', hend, hlength⟩ :=
        hyphens_same (f := f) (hd.tail.skip f) true fun c => ⟨Unicode.CharSet.single c.toNat, 0⟩
      refine ⟨true, parts, rest, rest', hopen, hopen', hend, ?_⟩
      exact Nat.le_trans hlength (Nat.le_trans (f.skip_length_le ds) (Nat.le_of_lt hless))
    · obtain ⟨parts, rest, rest', hopen, hopen', hend, hlength⟩ :=
        hyphens_same (f := f) hd false fun c => ⟨Unicode.CharSet.single c.toNat, 0⟩
      rw [openClass_plain hs hc, openClass_plain hs' hc]
      exact ⟨false, parts, rest, rest', hopen, hopen', hend, Nat.le_trans hlength hless⟩

/-! ## Items and ranges -/

theorem classItem_same (h : Ending hidden signed cs cs') :
    Same hidden signed cs.length Eq (classItem f cs) (classItem f cs') := by
  cases h with
  | same _ => exact .error
  | sign _ => exact .error
  | @cons c cs cs' _ h =>
      intro e last hread
      unfold classItem at hread ⊢
      split at hread
      · cases hread
      · rename_i heq
        cases heq
        exact (escape_same h).mono (Nat.le_succ _) e last hread
      · rename_i hplain heq
        cases heq
        split
        · contradiction
        · rename_i heq
          cases heq
          exact (hplain rfl).elim
        · rename_i heq
          cases heq
          exact Same.ok rfl h (Nat.le_succ _) e last hread

def itemPart (f : Flags) (first : Escape) (rest : List Char) :
    Except RegexError (ClassPart × List Char) :=
  match first with
  | .look _ => throw .classEscape
  | .chars s => return (⟨s, 0⟩, rest)
  | .literal .. => return (⟨Unicode.CharSet.single (← classLiteral f first).toNat, 0⟩, rest)

theorem itemPart_same {n : Nat} (h : Ending hidden signed cs cs') (hn : cs.length ≤ n)
    (first : Escape) : Same hidden signed n Eq (itemPart f first cs) (itemPart f first cs') := by
  cases first with
  | look l => exact .error
  | chars s => exact .ok rfl h hn
  | literal c byte => exact .after_eq fun _ => .ok rfl h hn

theorem classRange_same (h : Ending hidden signed cs cs') :
    Same hidden signed cs.length Eq (classRange f cs) (classRange f cs') := by
  refine (classItem_same h).bind ?_
  rintro first _ rest rest' rfl hend hlength e last hread
  dsimp only at hread ⊢
  rcases hend.skip_cases f with
    ⟨hs, hs', hhidden⟩ | ⟨hs, hs', hsigned⟩ | ⟨c, ds, ds', hs, hs', hd, hless⟩ <;>
    rw [hs] at hread <;> rw [hs']
  · have hnone : Ending hidden signed [] [] := .same hhidden
    exact itemPart_same (f := f) hnone (Nat.zero_le _) first e last hread
  · have hsign : Ending hidden signed [] ['$'] := .sign hsigned
    exact itemPart_same (f := f) hsign (Nat.zero_le _) first e last hread
  · have hlength : (c :: ds).length ≤ cs.length := Nat.le_trans hless hlength
    have halone := itemPart_same (f := f) hd hlength first
    split at hread
    · rename_i heq
      cases heq
      rcases hd.tail.skip_cases f with
        ⟨ht, ht', _⟩ | ⟨ht, ht', _⟩ | ⟨b, es, es', ht, ht', he, hless'⟩ <;>
        rw [ht] at hread <;> simp only [ht']
      · cases hread
      · cases hread
      · have hes : (b :: es).length ≤ cs.length := Nat.le_trans hless' (Nat.le_of_lt hlength)
        refine Same.ite (fun _ => halone) (fun _ => ?_) e last hread
        refine (classItem_same he).bind ?_
        rintro item _ rest rest' rfl hend hlength
        refine .after_eq fun a => .after_eq fun b => .ite (fun _ => .error) fun _ => ?_
        exact .ok rfl hend (Nat.le_trans hlength hes)
    · rename_i hplain
      split
      · rename_i heq
        cases heq
        exact (hplain _ rfl).elim
      · exact halone e last hread

/-! ## Whole classes -/

theorem readClass_same {n n' : Nat} (h : Ending hidden signed cs cs') (hn : n ≤ n')
    (stack : List ClassFrame) (parts : List ClassPart) :
    Same hidden signed cs.length Eq (readClass f n stack parts cs)
      (readClass f n' stack parts cs') := by
  induction n generalizing n' cs cs' stack parts with
  | zero => exact .error
  | succ n ih =>
      obtain ⟨n', rfl⟩ := Nat.exists_eq_add_of_le' (Nat.lt_of_lt_of_le (Nat.zero_lt_succ n) hn)
      have ih {ds ds' : List Char} (h : Ending hidden signed ds ds') (hless : ds.length ≤ cs.length)
          (stack : List ClassFrame) (parts : List ClassPart) :
          Same hidden signed cs.length Eq (readClass f n stack parts ds)
            (readClass f n' stack parts ds') :=
        (ih h (Nat.le_of_succ_le_succ hn) stack parts).mono hless
      intro e last hread
      rw [readClass] at hread ⊢
      rcases h.skip_cases f with ⟨hs, hs', _⟩ | ⟨hs, hs', _⟩ | ⟨c, ds, ds', hs, hs', hd, hless⟩ <;>
        rw [hs] at hread <;> rw [hs']
      · cases hread
      · cases hread
      · have hless := Nat.le_of_lt hless
        split at hread
        case h_1 => cases hread
        case h_2 =>
          rename_i heq
          cases heq
          rcases namedClass_same hd.tail with
            ⟨hnone, hnone'⟩ | ⟨negated, s, rest, rest', hsome, hsome', hend, hlength⟩
          · obtain ⟨negated, inner, rest, rest', hopen, hopen', hend, hlength⟩ :=
              openClass_same (f := f) hd.tail
            simp only [hnone, hopen] at hread
            simp only [hnone', hopen']
            exact ih hend (Nat.le_trans hlength hless) _ _ e last hread
          · simp only [hsome] at hread
            simp only [hsome']
            refine Same.after_eq (fun s => ?_) e last hread
            exact ih hend (Nat.le_trans hlength hless) _ _
        case h_3 =>
          rename_i heq
          cases heq
          dsimp only at hread ⊢
          generalize closeOperation f stack (ClassPart.union parts) = closed at hread ⊢
          obtain ⟨whole, _ | ⟨frame, rest⟩⟩ := closed
          · cases hread
          · cases frame with
            | operation op left => cases hread
            | opened negated outer =>
                refine Same.after_eq (fun s => .ite (fun _ => ?_) fun _ => ?_) e last hread
                · exact .ok rfl hd.tail hless
                · exact ih hd.tail hless _ _
        -- The three operations on sets are written with two characters each.
        case h_4 | h_5 | h_6 =>
          rename_i heq
          cases heq
          obtain - | - | ⟨-, -, hlast⟩ := hd.tail
          exact ih hlast (Nat.le_of_succ_le hless) _ _ e last hread
        case h_7 =>
          rename_i hopening hclosing hand hminus htilde
          split
          case h_1 => contradiction
          case h_2 =>
            rename_i heq
            cases heq
            exact (hopening _ rfl).elim
          case h_3 =>
            rename_i heq
            cases heq
            exact (hclosing _ rfl).elim
          case h_4 | h_5 | h_6 =>
            rename_i heq
            cases heq
            cases hd.tail
            first
              | exact (hand _ rfl).elim
              | exact (hminus _ rfl).elim
              | exact (htilde _ rfl).elim
          case h_7 =>
            refine (classRange_same hd).bind ?_ e last hread
            rintro part _ rest rest' rfl hend hlength
            exact ih hend (Nat.le_trans hlength (Nat.succ_le_of_lt ‹_›)) _ _

end Grove.Regex
