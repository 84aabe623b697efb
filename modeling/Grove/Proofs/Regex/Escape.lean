import Grove.Proofs.Regex.Ending

/-!
# Escapes before a dollar sign

What an escape stands for does not depend on a dollar sign behind the pattern. Where a reader has
other things to do after one character than after all others, both texts are taken apart at once,
since they begin with the same.
-/

namespace Grove.Regex

variable {hidden signed : Prop} {f : Flags} {cs cs' : List Char}

theorem hexDigits_same (h : Ending hidden signed cs cs') (value width : Nat) :
    Same hidden signed cs.length Eq (hexDigits f value width cs) (hexDigits f value width cs') := by
  induction width generalizing value cs cs' with
  | zero => exact .ok rfl h (Nat.le_refl _)
  | succ width ih =>
      cases h with
      | same _ => exact .error
      | sign _ => exact .error
      | @cons c cs cs' _ h =>
          rw [hexDigits, hexDigits]
          split
          · exact (ih (h.skip f) _).mono (Nat.le_succ_of_le (f.skip_length_le cs))
          · exact .error

theorem untilBrace_same {n n' : Nat} (h : Ending hidden signed cs cs') (hn : n ≤ n') :
    Same hidden signed cs.length Eq (untilBrace f n cs) (untilBrace f n' cs') := by
  induction n generalizing n' cs cs' with
  | zero => exact .error
  | succ n ih =>
      obtain ⟨n', rfl⟩ := Nat.exists_eq_add_of_le' (Nat.lt_of_lt_of_le (Nat.zero_lt_succ n) hn)
      rw [untilBrace, untilBrace]
      rcases h.skip_cases f with ⟨hs, hs', _⟩ | ⟨hs, hs', _⟩ | ⟨c, ds, ds', hs, hs', hd, hless⟩ <;>
        rw [hs, hs']
      · exact .error
      · exact .error
      · refine .ite (fun _ => .ok rfl hd.tail (Nat.le_of_lt hless)) fun _ => ?_
        have hbody := (ih hd.tail (Nat.le_of_succ_le_succ hn)).mono (Nat.le_of_lt hless)
        exact hbody.map (c :: ·) (c :: ·) fun _ _ h => by rw [h]

theorem hexEscape_same (h : Ending hidden signed cs cs') (kind : Char) :
    Same hidden signed cs.length Eq (hexEscape f kind cs) (hexEscape f kind cs') := by
  intro e last hread
  rw [hexEscape] at hread ⊢
  rcases h.skip_cases f with ⟨hs, hs', _⟩ | ⟨hs, hs', _⟩ | ⟨c, ds, ds', hs, hs', hd, hless⟩ <;>
    rw [hs] at hread <;> rw [hs']
  · cases hread
  · cases hread
  · split at hread
    · cases hread
    · rename_i heq
      cases heq
      refine (untilBrace_same hd.tail (Nat.succ_le_succ hd.tail.length_le)).bind ?_ e last hread
      rintro body _ rest rest' rfl hend hlength
      refine .ite (fun _ => .error) fun _ => ?_
      dsimp only
      split
      · refine .ok rfl (hend.skip f) (Nat.le_trans (f.skip_length_le rest) ?_)
        exact Nat.le_trans hlength (Nat.le_of_lt hless)
      · exact .error
    · rename_i hplain
      split
      · contradiction
      · rename_i heq
        cases heq
        exact (hplain ds rfl).elim
      · refine (hexDigits_same hd 0 _).bind ?_ e last hread
        rintro value _ rest rest' rfl hend hlength
        dsimp only
        split
        · exact .ok rfl hend (Nat.le_trans hlength hless)
        · exact .error

theorem propertyEscape_same (h : Ending hidden signed cs cs') (negated : Bool) :
    Same hidden signed cs.length Eq (propertyEscape f negated cs)
      (propertyEscape f negated cs') := by
  intro e last hread
  rw [propertyEscape] at hread ⊢
  rcases h.skip_cases f with ⟨hs, hs', _⟩ | ⟨hs, hs', _⟩ | ⟨c, ds, ds', hs, hs', hd, hless⟩ <;>
    rw [hs] at hread <;> rw [hs']
  · cases hread
  · cases hread
  · split at hread
    · cases hread
    · rename_i heq
      cases heq
      refine (untilBrace_same hd.tail (Nat.succ_le_succ hd.tail.length_le)).bind ?_ e last hread
      rintro body _ rest rest' rfl hend hlength
      refine .ite (fun _ => .error) fun _ => ?_
      dsimp only
      split
      · exact .after_eq fun s => .ok rfl hend (Nat.le_trans hlength (Nat.le_of_lt hless))
      · exact .error
    · rename_i hplain heq
      cases heq
      split
      · contradiction
      · rename_i heq
        cases heq
        exact (hplain rfl).elim
      · rename_i heq
        cases heq
        refine Same.ite (fun _ => .error) (fun _ => ?_) e last hread
        refine .ite (fun _ => .error) fun _ => ?_
        split
        · refine .after_eq fun s => .ok rfl (hd.tail.skip f) ?_
          exact Nat.le_of_lt (Nat.lt_of_le_of_lt (f.skip_length_le ds) hless)
        · exact .error

theorem edgeName_eq_taken (n : Nat) (cs : List Char) :
    edgeName f n cs = taken f isEdgeNameChar n cs := by
  induction n generalizing cs with
  | zero => rfl
  | succ n ih =>
      cases cs with
      | nil => rfl
      | cons c cs => rw [edgeName, taken, ih]

theorem namedEdge_same {n : Nat} (h : Ending hidden signed cs cs') (hn : cs.length ≤ n + 1) :
    Same hidden signed n Eq
      (match edgeName f cs.length cs with
        | (name, '\x7d' :: rest) =>
          match namedEdge? f (String.ofList name) with
          | some l => .ok (Escape.look l, rest)
          | none => .error .wordEdgeUnknown
        | _ => .error .wordEdgeUnknown)
      (match edgeName f cs'.length cs' with
        | (name, '\x7d' :: rest) =>
          match namedEdge? f (String.ofList name) with
          | some l => .ok (Escape.look l, rest)
          | none => .error .wordEdgeUnknown
        | _ => .error .wordEdgeUnknown) := by
  obtain ⟨name, rest, rest', hname, hname', hend, hlength⟩ :=
    taken_same (f := f) (p := isEdgeNameChar) (by decide) h (Nat.le_refl _) (Nat.le_refl _)
  rw [edgeName_eq_taken, edgeName_eq_taken, hname, hname']
  cases hend with
  | same _ => exact .error
  | sign _ => exact .error
  | @cons b rest rest' _ hend =>
      intro e last hread
      split at hread
      · rename_i heq
        cases heq
        split at hread
        · rename_i hedge
          simp only [hedge]
          exact Same.ok rfl hend (Nat.le_of_succ_le_succ (Nat.le_trans hlength hn)) e last hread
        · cases hread
      · cases hread

theorem wordEdge_same (h : Ending hidden signed cs cs') :
    Same hidden signed cs.length Eq (wordEdge f cs) (wordEdge f cs') := by
  intro e last hread
  have hplain : Same hidden signed cs.length Eq (.ok (Escape.look (.wordEdge f.word), cs))
    (.ok (Escape.look (.wordEdge f.word), cs')) := .ok rfl h (Nat.le_refl _)
  cases h with
  | same _ => exact hplain e last hread
  | sign _ => exact hplain e last hread
  | @cons c cs cs' hc h =>
      unfold wordEdge at hread ⊢
      split at hread
      · rename_i heq
        cases heq
        rcases h.skip_cases f with
          ⟨hs, hs', _⟩ | ⟨hs, hs', _⟩ | ⟨c, ds, ds', hs, hs', hd, hless⟩ <;>
          rw [hs] at hread <;> simp only [hs']
        · cases hread
        · cases hread
        · refine Same.ite (fun _ => ?_) (fun _ => hplain) e last hread
          exact namedEdge_same hd (Nat.le_trans hless (Nat.le_succ_of_le (Nat.le_succ _)))
      · rename_i hbrace
        split
        · rename_i heq
          cases heq
          exact (hbrace _ rfl).elim
        · exact hplain e last hread

theorem escape_same (h : Ending hidden signed cs cs') :
    Same hidden signed cs.length Eq (escape f cs) (escape f cs') := by
  cases h with
  | same _ => exact .error
  | sign _ => exact .error
  | @cons c cs cs' _ h =>
      rw [escape, escape]
      have hlength := Nat.le_succ cs.length
      have hrest {e : Escape} :
          Same hidden signed (cs.length + 1) Eq (.ok (e, cs)) (.ok (e, cs')) :=
        .ok rfl h hlength
      refine .ite (fun _ => .error) fun _ => ?_
      refine .ite (fun _ => (hexEscape_same h c).mono hlength) fun _ => ?_
      refine .ite (fun _ => (propertyEscape_same h _).mono hlength) fun _ => ?_
      refine .ite (fun _ => hrest) fun _ => ?_
      refine .ite (fun _ => ?_) fun _ => ?_
      · cases f.negate true (f.shorthand c.toLower) with
        | error => exact .error
        | ok s => exact hrest
      refine .ite (fun _ => hrest) fun _ => ?_
      refine .ite (fun _ => hrest) fun _ => ?_
      refine .ite (fun _ => hrest) fun _ => ?_
      refine .ite (fun _ => (wordEdge_same h).mono hlength) fun _ => ?_
      refine .ite (fun _ => hrest) fun _ => ?_
      refine .ite (fun _ => hrest) fun _ => ?_
      refine .ite (fun _ => hrest) fun _ => ?_
      cases controlOf? c with
      | none => exact .error
      | some control => exact hrest

end Grove.Regex
