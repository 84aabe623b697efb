import Mathlib.Data.List.Chain
import Grove.Proofs.Sql.Lexing

/-!
# Statements read fragment by fragment

The fragments of a statement become one text, and the server takes that text apart by its own
rules. It gets the fragments back where no two of them run together (`Statement.Tidy`): each one
is ended by itself or closed by the next. Then a name is one identifier, a parameter one
parameter and a path one literal, and words are read as they are read on their own
(`lexes_texts`). Which fragments run together does not depend on names and values.
-/

namespace Grove.Sql

open Lexeme (Lexes Closes Ended closers spaces)

namespace Lexeme

def name? : Lexeme → Option String
  | .identifier name => some name
  | _ => none

def anonymous : Lexeme → Lexeme
  | .identifier _ => .identifier ""
  | t => t

theorem anonymous_of_name?_eq_none {t : Lexeme} (h : t.name? = none) : t.anonymous = t := by
  cases t with
  | identifier => cases h
  | word | literal | number | parameter | operator | mark => rfl

end Lexeme

namespace Fragment

/-- The fragment without the name or the value that a caller chose. -/
def anonymous : Fragment → Fragment
  | .name _ => .name ""
  | .parameter _ _ => .parameter .null none
  | f => f

def name? : Fragment → Option String
  | .name n => some n
  | _ => none

def lexemes (number : Nat) : Fragment → List Lexeme
  | .word w => (Lexeme.ofText w).getD []
  | .name n => [.identifier n]
  | .path segments => [.literal ("\x7b" ++ String.intercalate "," segments ++ "\x7d")]
  | .parameter .. => [.parameter (toString number)]

/-- Words can be read on their own, have no quotes and no identifier, and paths are of simple
segments. -/
def isSound : Fragment → Bool
  | .word w =>
    ((Lexeme.ofText w).any fun ts => ts.all fun t => t.name?.isNone) &&
      w.toList.all fun c => c ≠ '\x22' && c ≠ '\x27'
  | .path segments => segments.all Criteria.isSimpleSegment
  | .name _ | .parameter .. => true

/-- Whether the fragment closes what is before it. -/
def isCloser : Fragment → Bool
  | .word w => w.toList.head?.any closers.contains
  | _ => false

/-- Whether the word's last lexeme is ended by the word itself. -/
def isEnded (w : String) : Bool := w.toList.getLast?.any closers.contains

/-- Whether the second fragment may stand right behind the first: one of them ends what would
otherwise go on in the other, or a point joins names. A literal could go on behind spaces, so
behind a path there is one space and then something else. -/
def mayPrecede : Fragment → Fragment → Bool
  | .word w, g =>
    isEnded w || g.isCloser || (w = "." && g.name?.isSome)
  | .name _, .word w => w = "." || isCloser (.word w)
  | .parameter .., g => g.isCloser
  | .path _, .word w =>
    match w.toList with
    | ' ' :: c :: _ => !spaces.contains c && c ≠ '\x27'
    | _ => false
  | _, _ => false

end Fragment

namespace Statement

def names (s : Statement) : List String := s.filterMap Fragment.name?

def anonymous (s : Statement) : Statement := s.map Fragment.anonymous

/-- What the fragments are read as, when the next parameter has the given number. -/
def lexemes (number : Nat) : Statement → List Lexeme
  | [] => []
  | f :: fs => f.lexemes number ++ lexemes (if f.isParameter then number + 1 else number) fs

/-- No fragment runs into the next. -/
structure Tidy (s : Statement) : Prop where
  sound : ∀ f ∈ s, f.isSound = true
  apart : s.IsChain fun f g => f.mayPrecede g = true

end Statement

/-! ## One fragment before the rest -/

namespace Fragment

variable {f g : Fragment} {number : Nat} {tail : List Char} {ts : List Lexeme}

theorem lexemes_of_isSound {w : String} (h : (Fragment.word w).isSound = true) :
    ∃ us, Lexeme.ofText w = some us ∧ (∀ t ∈ us, t.name? = none) ∧
      ∀ c ∈ w.toList, c ≠ '\x22' ∧ c ≠ '\x27' := by
  rw [isSound, Bool.and_eq_true, Option.any_eq_true] at h
  obtain ⟨⟨us, hus, hnames⟩, hplain⟩ := h
  exact ⟨us, hus, by simpa using hnames, by simpa using hplain⟩

theorem ended_of_isEnded {w : String} (h : isEnded w = true) : Ended w.toList := by
  intro c hc
  rw [isEnded, Option.mem_def.mp hc] at h
  simpa using h

theorem closes_of_isCloser (h : g.isCloser = true) (number : Nat) (tail : List Char) :
    Closes ((g.text number).toList ++ tail) := by
  match g with
  | .word w =>
      intro c hc
      rw [isCloser, Option.any_eq_true] at h
      obtain ⟨d, hd, hcloser⟩ := h
      obtain ⟨cs, hcs⟩ := List.head?_eq_some_iff.mp hd
      rw [text, hcs] at hc
      cases hc
      simpa using hcloser

/-- What may follow a fragment: nothing, or a fragment that it may precede. -/
def Before (f : Fragment) (tail : List Char) : Prop :=
  tail = [] ∨ ∃ g number rest, tail = (g.text number).toList ++ rest ∧ f.mayPrecede g = true

theorem lexes_name {n : String} (hnext : Before (.name n) tail) (htail : Lexes tail ts) :
    Lexes ((quoted n).toList ++ tail) (.identifier n :: ts) := by
  refine Lexeme.lexes_quoted n ?_ htail
  obtain rfl | ⟨g, number, rest, rfl, hg⟩ := hnext
  · nofun
  match g with
  | .word w =>
      rw [mayPrecede, Bool.or_eq_true, decide_eq_true_eq] at hg
      rcases hg with rfl | hcloser
      · simp [text]
      · intro hquote
        have hcloses := closes_of_isCloser hcloser number rest '\x22' hquote
        revert hcloses
        decide

theorem lexes_parameter {v : Json} {column : Option String}
    (hnext : Before (.parameter v column) tail) (htail : Lexes tail ts) :
    Lexes (((Fragment.parameter v column).text number).toList ++ tail)
      (.parameter (toString number) :: ts) := by
  have hcloses : Closes tail := by
    obtain rfl | ⟨g, number', rest, rfl, hg⟩ := hnext
    · nofun
    · exact closes_of_isCloser hg number' rest
  obtain ⟨hne, hdigits⟩ := Lexeme.digits_toString number
  have hlexes := Lexeme.lexes_parameter hne hdigits hcloses htail
  rwa [text, String.toList_append, List.append_assoc]

theorem lexes_word {w : String} (hsound : (Fragment.word w).isSound = true)
    (hnext : Before (.word w) tail) (htail : Lexes tail ts) :
    Lexes (w.toList ++ tail) ((Lexeme.ofText w).getD [] ++ ts) := by
  obtain ⟨us, hus, -, hquotes⟩ := lexemes_of_isSound hsound
  have happend : Ended w.toList ∨ Closes tail → Lexes (w.toList ++ tail) (us ++ ts) :=
    fun hend => Lexeme.lexes_append hquotes hus hend htail
  rw [hus, Option.getD_some]
  obtain rfl | ⟨g, number, rest, rfl, hg⟩ := hnext
  · exact happend (.inr nofun)
  · rw [mayPrecede, Bool.or_eq_true, Bool.or_eq_true, Bool.and_eq_true, decide_eq_true_eq] at hg
    rcases hg with (hended | hcloser) | ⟨hpoint, hname⟩
    · exact happend (.inl (ended_of_isEnded hended))
    · exact happend (.inr (closes_of_isCloser hcloser number rest))
    · obtain ⟨n, rfl⟩ : ∃ n, g = .name n := by
        cases g with
        | name n => exact ⟨n, rfl⟩
        | word | path | parameter => cases hname
      have hmark : us = [.mark '.'] := by
        have hlexemes : Lexeme.ofText "." = some [.mark '.'] := by decide
        rw [hpoint, hlexemes] at hus
        exact (Option.some.inj hus).symm
      have hread : Lexeme.read '.' ([] ++ (((Fragment.name n).text number).toList ++ rest)) =
          some (some (.mark '.'), ((Fragment.name n).text number).toList ++ rest) := by
        simp [Lexeme.read, Lexeme.spaces, Lexeme.marks, text, quoted]
      have hlexes := Lexeme.Lexes.cons hread htail
      rw [hmark, hpoint]
      simpa using hlexes

theorem not_mem_intercalate {c : Char} {separator : String} {pieces : List String}
    (hseparator : c ∉ separator.toList) (h : ∀ piece ∈ pieces, c ∉ piece.toList) :
    c ∉ (String.intercalate separator pieces).toList := by
  induction pieces with
  | nil => simp
  | cons piece pieces ih =>
      rw [List.forall_mem_cons] at h
      cases pieces with
      | nil =>
          rw [String.intercalate_singleton]
          exact h.1
      | cons next rest =>
          rw [String.intercalate_cons_cons]
          simp only [String.toList_append, List.mem_append, not_or]
          exact ⟨⟨h.1, hseparator⟩, ih h.2⟩

theorem lexes_path {segments : List String} (hsound : (Fragment.path segments).isSound = true)
    (hnext : Before (.path segments) tail) (htail : Lexes tail ts) :
    Lexes (((Fragment.path segments).text number).toList ++ tail)
      ((Fragment.path segments).lexemes number ++ ts) := by
  rw [isSound, List.all_eq_true] at hsound
  have hsegments : ∀ segment ∈ segments, '\x27' ∉ segment.toList := by
    intro segment hsegment hquote
    have hsimple := hsound segment hsegment
    rw [Criteria.isSimpleSegment, Bool.and_eq_true, List.all_eq_true] at hsimple
    exact absurd (hsimple.2 _ hquote) (by decide)
  have hplain : '\x27' ∉ ("\x7b" ++ String.intercalate "," segments ++ "\x7d").toList := by
    have hinner := not_mem_intercalate (by decide : '\x27' ∉ ",".toList) hsegments
    simpa using hinner
  have hopen : (tail.dropWhile spaces.contains).head? ≠ some '\x27' := by
    obtain rfl | ⟨g, number, rest, rfl, hg⟩ := hnext
    · nofun
    · cases g with
      | word w =>
          rw [mayPrecede] at hg
          split at hg
          · next c cs hw =>
              rw [Bool.and_eq_true, decide_eq_true_eq, Bool.not_eq_true'] at hg
              have hspace : spaces.contains ' ' = true := by decide
              have hc : ¬ spaces.contains c = true := Bool.eq_false_iff.mp hg.1
              rw [text, hw, List.cons_append, List.cons_append,
                List.dropWhile_cons_of_pos hspace, List.dropWhile_cons_of_neg hc]
              simpa using hg.2
          · cases hg
      | name | path | parameter => cases hg
  have hlexes := Lexeme.lexes_literal hplain hopen htail
  have htext : (Fragment.path segments).text number =
      "'" ++ ("\x7b" ++ String.intercalate "," segments ++ "\x7d") ++ "'" := by
    rw [text, ← String.toList_inj]
    simp
  rw [htext]
  exact hlexes

/-- A fragment before the rest is read as it is on its own. -/
theorem lexes_before (hsound : f.isSound = true) (hnext : Before f tail) (htail : Lexes tail ts) :
    Lexes ((f.text number).toList ++ tail) (f.lexemes number ++ ts) := by
  cases f with
  | word w => exact lexes_word hsound hnext htail
  | name n => exact lexes_name hnext htail
  | path segments => exact lexes_path hsound hnext htail
  | parameter v column => exact lexes_parameter hnext htail

end Fragment

/-! ## A whole statement -/

namespace Statement

variable {s t : Statement} {number : Nat}

theorem join_texts_cons (f : Fragment) (s : Statement) (number : Nat) :
    (String.join (texts number (f :: s))).toList =
      (f.text number).toList ++
        (String.join (texts (if f.isParameter then number + 1 else number) s)).toList := by
  rw [texts, String.join_cons, String.toList_append]

theorem lexes_texts (h : Tidy s) :
    Lexes (String.join (texts number s)).toList (lexemes number s) := by
  induction s generalizing number with
  | nil => exact .nil
  | cons f s ih =>
      obtain ⟨hsound, hapart⟩ := h
      obtain ⟨hf, hs⟩ := List.forall_mem_cons.mp hsound
      rw [join_texts_cons]
      refine Fragment.lexes_before hf ?_ (ih ⟨hs, hapart.tail⟩)
      cases s with
      | nil => exact .inl rfl
      | cons g s =>
          refine .inr ⟨g, _, _, join_texts_cons g s _, ?_⟩
          exact (List.isChain_cons_cons.mp hapart).1

/-! ## Names and what is left without them -/

theorem name?_lexemes (h : ∀ f ∈ s, f.isSound = true) :
    (lexemes number s).filterMap Lexeme.name? = names s := by
  induction s generalizing number with
  | nil => rfl
  | cons f s ih =>
      obtain ⟨hf, hs⟩ := List.forall_mem_cons.mp h
      rw [lexemes, List.filterMap_append, ih hs]
      cases f with
      | word w =>
          obtain ⟨us, hus, hnone, -⟩ := Fragment.lexemes_of_isSound hf
          rw [Fragment.lexemes, hus, Option.getD_some, List.filterMap_eq_nil_iff.mpr hnone]
          rfl
      | name | path | parameter => rfl

theorem map_anonymous_lexemes (h : ∀ f ∈ s, f.isSound = true) :
    (lexemes number s).map Lexeme.anonymous = lexemes number s.anonymous := by
  induction s generalizing number with
  | nil => rfl
  | cons f s ih =>
      obtain ⟨hf, hs⟩ := List.forall_mem_cons.mp h
      have hstep : anonymous (f :: s) = f.anonymous :: anonymous s := rfl
      rw [hstep, lexemes, lexemes, List.map_append, ih hs]
      cases f with
      | word w =>
          obtain ⟨us, hus, hnone, -⟩ := Fragment.lexemes_of_isSound hf
          have hsame : us.map Lexeme.anonymous = us.map id :=
            List.map_congr_left fun t ht => Lexeme.anonymous_of_name?_eq_none (hnone t ht)
          have hword : (Fragment.word w).lexemes number = us := by
            rw [Fragment.lexemes, hus, Option.getD_some]
          have hwords : (Fragment.word w).anonymous.lexemes number = us := hword
          rw [hword, hwords, hsame, List.map_id]
          rfl
      | name | path | parameter => rfl

theorem isSound_anonymous (f : Fragment) : f.anonymous.isSound = f.isSound := by
  cases f <;> rfl

theorem mayPrecede_anonymous (f g : Fragment) :
    f.anonymous.mayPrecede g.anonymous = f.mayPrecede g := by
  cases f <;> cases g <;> rfl

theorem tidy_anonymous_iff : Tidy s.anonymous ↔ Tidy s := by
  have hsound : (∀ f ∈ s.anonymous, f.isSound = true) ↔ ∀ f ∈ s, f.isSound = true := by
    simp [anonymous, isSound_anonymous]
  have hapart : (s.anonymous.IsChain fun f g => f.mayPrecede g = true) ↔
      s.IsChain fun f g => f.mayPrecede g = true := by
    rw [anonymous, List.isChain_map]
    simp only [mayPrecede_anonymous]
  exact ⟨fun h => ⟨hsound.mp h.sound, hapart.mp h.apart⟩,
    fun h => ⟨hsound.mpr h.sound, hapart.mpr h.apart⟩⟩

/-- Statements that differ in names and values only are read as the same lexemes but for the
names, and these are the names of the statement. -/
theorem Tidy.alike (hs : Tidy s) (h : t.anonymous = s.anonymous) :
    ∃ ts us, Lexeme.ofText s.text = some ts ∧ ts.filterMap Lexeme.name? = s.names ∧
      Lexeme.ofText t.text = some us ∧ us.map Lexeme.anonymous = ts.map Lexeme.anonymous := by
  have ht : Tidy t := by
    rw [← tidy_anonymous_iff, h, tidy_anonymous_iff]
    exact hs
  refine ⟨lexemes 1 s, lexemes 1 t, (lexes_texts hs).ofText, name?_lexemes hs.sound,
    (lexes_texts ht).ofText, ?_⟩
  rw [map_anonymous_lexemes hs.sound, map_anonymous_lexemes ht.sound, h]

/-! ## Putting statements together -/

/-- A tidy statement that a closer may follow. -/
structure Phrase (s : Statement) : Prop extends Tidy s where
  open_end : ∀ f ∈ s.getLast?, ∀ g, g.isCloser = true → f.mayPrecede g = true

theorem Phrase.nil : Phrase [] := ⟨⟨by simp, .nil⟩, nofun⟩

theorem Phrase.single {f : Fragment} (hf : f.isSound = true)
    (hend : ∀ g, g.isCloser = true → f.mayPrecede g = true) : Phrase [f] :=
  ⟨⟨by simpa using hf, .singleton f⟩, by simpa using hend⟩

theorem Phrase.name (n : String) : Phrase [.name n] := by
  refine .single rfl fun g hg => ?_
  cases g with
  | word w => simp [Fragment.mayPrecede, hg]
  | name | path | parameter => cases hg

theorem Phrase.parameter (v : Json) (column : Option String) : Phrase [.parameter v column] :=
  .single rfl fun _ hg => hg

theorem Phrase.word {w : String} (hw : (Fragment.word w).isSound = true) : Phrase [.word w] :=
  .single hw fun _ hg => by simp [Fragment.mayPrecede, hg]

/-- A word that is ended may stand before a phrase. -/
def isOpening (w : String) : Bool := (Fragment.word w).isSound && Fragment.isEnded w

/-- A closer may stand behind a phrase. -/
def isClosing (w : String) : Bool := (Fragment.word w).isSound && (Fragment.word w).isCloser

theorem Phrase.opened {w : String} (hw : isOpening w = true) (hs : Phrase s) :
    Phrase (.word w :: s) := by
  obtain ⟨hsound, hended⟩ := Bool.and_eq_true_iff.mp hw
  refine ⟨⟨List.forall_mem_cons.mpr ⟨hsound, hs.sound⟩, ?_⟩, ?_⟩
  · cases s with
    | nil => exact .singleton _
    | cons f s =>
        refine List.isChain_cons_cons.mpr ⟨?_, hs.apart⟩
        rw [Fragment.mayPrecede, hended]
        rfl
  · cases s with
    | nil =>
        rintro f ⟨⟩ g hg
        simp [Fragment.mayPrecede, hg]
    | cons f s =>
        rw [List.getLast?_cons_cons]
        exact hs.open_end

theorem Phrase.append {f : Fragment} (hs : Phrase s) (hf : f.isCloser = true)
    (ht : Phrase (f :: t)) : Phrase (s ++ f :: t) where
  sound := List.forall_mem_append.mpr ⟨hs.sound, ht.sound⟩
  apart := by
    refine List.isChain_append.mpr ⟨hs.apart, ht.apart, fun g hg h hh => ?_⟩
    cases hh
    exact hs.open_end g hg f hf
  open_end := by
    rw [List.getLast?_append_of_ne_nil s (List.cons_ne_nil f t)]
    exact ht.open_end

theorem Phrase.closed {w : String} (hs : Phrase s) (hw : isClosing w = true) :
    Phrase (s ++ [.word w]) := by
  obtain ⟨hsound, hcloser⟩ := Bool.and_eq_true_iff.mp hw
  exact hs.append hcloser (.word hsound)

/-- A word that closes one phrase and is ended before another links the two. -/
theorem Phrase.linked {w : String} (hs : Phrase s) (hclosing : isClosing w = true)
    (hopening : isOpening w = true) (ht : Phrase t) : Phrase (s ++ .word w :: t) :=
  hs.append (Bool.and_eq_true_iff.mp hclosing).2 (ht.opened hopening)

theorem Phrase.separate {separator : String} (hclosing : isClosing separator = true)
    (hopening : isOpening separator = true) {parts : List Statement}
    (hparts : ∀ s ∈ parts, Phrase s) : Phrase (Statement.separate separator parts) := by
  induction parts with
  | nil => exact .nil
  | cons s parts ih =>
      obtain ⟨hs, hrest⟩ := List.forall_mem_cons.mp hparts
      cases parts with
      | nil => exact hs
      | cons t parts => exact hs.linked hclosing hopening (ih hrest)

/-- A path of simple segments may begin a phrase, before a word that no literal goes on in. -/
theorem Phrase.path {segments : List String}
    (hsegments : ∀ segment ∈ segments, Criteria.isSimpleSegment segment = true) {w : String}
    (hw : (Fragment.path segments).mayPrecede (.word w) = true) (hs : Phrase (.word w :: s)) :
    Phrase (.path segments :: .word w :: s) where
  sound := List.forall_mem_cons.mpr ⟨List.all_eq_true.mpr hsegments, hs.sound⟩
  apart := List.isChain_cons_cons.mpr ⟨hw, hs.apart⟩
  open_end := by
    rw [List.getLast?_cons_cons]
    exact hs.open_end

end Statement

end Grove.Sql
