import Mathlib.Data.List.TakeWhile
import Grove.Proofs.Text.Integer
import Grove.Sql.Statement

/-!
# Statements as a server reads them

PostgreSQL takes a statement apart into lexemes before anything else, and this module has its
rules as far as a statement of this program could meet them. A double quote begins an identifier
and a single quote a literal, each of which goes on to the next such quote that is not doubled,
whatever stands in between. Outside of quotes there are words, numbers, parameters, operators
and marks. Where the rules go on to something else, the lexer here gives up and reads nothing:
comments, escapes before a quote, dollar quotes, literals in pieces and numbers with a fraction.
So what it reads, a server reads in the same way. (Strings conform to the standard, which is the
server's default. That a server refuses an identifier without a character and shortens a very
long one does not move its end.)

What a text in front of another one is read as depends on that other text only where it ends.
The characters that cannot belong to the lexeme before them are the ones in `closers`, and
`lexes_append` says that fixed words are read on their own before or behind one of those.
-/

namespace Grove.Sql

inductive Lexeme where
  /-- A keyword or a name without quotes. -/
  | word (text : String)
  /-- A name in double quotes. -/
  | identifier (name : String)
  | literal (text : String)
  | number (digits : String)
  | parameter (digits : String)
  | operator (symbol : String)
  | mark (c : Char)
deriving DecidableEq

namespace Lexeme

def spaces : List Char := [' ', '\t', '\n', '\r', '\x0b', '\x0c']

def marks : List Char := ['(', ')', ',', ';', '[', ']']

def comparisons : List String := ["=", "<>", "<", "<=", ">", ">="]

/-- The characters that end any lexeme before them. -/
def closers : List Char := spaces ++ marks

def isWordStart (c : Char) : Bool := c.isAlpha || c = '_' || 0x80 ≤ c.toNat

def isWordChar (c : Char) : Bool := isWordStart c || c.isDigit || c = '$'

/-- A character of an operator. A hyphen or a slash may begin a comment; an operator with one
of these, or with a plus sign, is not read. -/
def isOperatorChar (c : Char) : Bool :=
  ['~', '!', '@', '#', '^', '&', '|', '\x60', '?', '*', '%', '<', '>', '='].contains c

/-- The text up to the closing quote, and what follows it. A doubled quote is one of the text. -/
def delimited (quote : Char) : List Char → Option (List Char × List Char)
  | [] => none
  | c :: cs =>
    if c = quote then
      match cs with
      | [] => some ([], [])
      | d :: ds =>
        if d = quote then (delimited quote ds).map fun (body, rest) => (quote :: body, rest)
        else some ([], d :: ds)
    else (delimited quote cs).map fun (body, rest) => (c :: body, rest)

/-- The characters of a class at the start of the text, unless one comes next that would make
something else of them. -/
def run (isMember clashes : Char → Bool) (cs : List Char) : Option (List Char × List Char) :=
  if (cs.dropWhile isMember).head?.any clashes then none
  else some (cs.takeWhile isMember, cs.dropWhile isMember)

def ofRun (make : List Char → Lexeme) (found : List Char × List Char) :
    Option Lexeme × List Char :=
  (some (make found.1), found.2)

/-- The first lexeme of `c :: cs` and what follows it; a space is none. -/
def read (c : Char) (cs : List Char) : Option (Option Lexeme × List Char) :=
  if spaces.contains c then some (none, cs)
  else if marks.contains c then some (some (.mark c), cs)
  else if c = '.' then
    if cs.head?.any fun d => d.isDigit || d = '.' then none else some (some (.mark c), cs)
  else if c = '\x22' then
    (delimited c cs).map fun (body, rest) => (some (.identifier (String.ofList body)), rest)
  else if c = '\x27' then
    (delimited c cs).bind fun (body, rest) =>
      -- a literal goes on in another one that stands on the next line
      if (rest.dropWhile spaces.contains).head? = some c then none
      else some (some (.literal (String.ofList body)), rest)
  else if c = '$' then
    (run Char.isDigit isWordChar cs).bind fun (digits, rest) =>
      if digits = [] then none else some (some (.parameter (String.ofList digits)), rest)
  else if c.isDigit then
    (run Char.isDigit (fun d => isWordChar d || d = '.') cs).map
      (ofRun fun digits => .number (String.ofList (c :: digits)))
  else if isWordStart c then
    -- a quote behind a letter has rules of its own
    (run isWordChar ['\x22', '\x27', '&'].contains cs).map
      (ofRun fun chars => .word (String.ofList (c :: chars)))
  else if isOperatorChar c then
    (run isOperatorChar ['+', '-', '/'].contains cs).map
      (ofRun fun chars => .operator (String.ofList (c :: chars)))
  else none

def readAll : Nat → List Char → Option (List Lexeme)
  | _, [] => some []
  | 0, _ :: _ => none
  | fuel + 1, c :: cs => do
    let (t, rest) ← read c cs
    let ts ← readAll fuel rest
    return t.toList ++ ts

/-- The lexemes of a statement. Each takes a character at least. -/
def ofText (s : String) : Option (List Lexeme) := readAll s.toList.length s.toList

variable {c quote : Char} {cs body rest tail : List Char} {t : Option Lexeme}
  {ts us : List Lexeme} {isMember clashes : Char → Bool}

/-! ## One lexeme -/

/-- The text is empty or begins with what ends the lexeme before it. -/
def Closes (cs : List Char) : Prop := ∀ c ∈ cs.head?, c ∈ closers

theorem Closes.nil : Closes [] := nofun

/-- Nothing that ends a lexeme goes on in a word or in a number. -/
theorem not_member_of_closer (hc : c ∈ closers) :
    c.isDigit = false ∧ isWordChar c = false ∧ c ≠ '.' := by
  have hall : (closers.all fun d => !d.isDigit && (!isWordChar d && d ≠ '.')) = true := by decide
  simpa using List.all_eq_true.mp hall c hc

theorem run_eq_some (h : run isMember clashes cs = some (body, rest)) :
    cs = body ++ rest ∧ (∀ d ∈ body, isMember d = true) ∧
      ∀ d ∈ rest.head?, isMember d = false ∧ clashes d = false := by
  unfold run at h
  split at h
  · cases h
  · next hclash =>
      cases h
      refine ⟨List.takeWhile_append_dropWhile.symm, fun d hd => List.mem_takeWhile_imp hd, ?_⟩
      intro d hd
      have hmember := List.head?_dropWhile_not isMember cs
      rw [Option.mem_def.mp hd] at hmember hclash
      exact ⟨hmember, by simpa using hclash⟩

theorem run_append (hbody : ∀ d ∈ body, isMember d = true)
    (hrest : ∀ d ∈ rest.head?, isMember d = false ∧ clashes d = false) :
    run isMember clashes (body ++ rest) = some (body, rest) := by
  have hspan : rest.takeWhile isMember = [] ∧ rest.dropWhile isMember = rest := by
    cases rest with
    | nil => exact ⟨rfl, rfl⟩
    | cons d rest => simp [(hrest d rfl).1]
  have hclash : rest.head?.any clashes = false := by
    cases rest with
    | nil => rfl
    | cons d rest => exact (hrest d rfl).2
  rw [run, List.takeWhile_append_of_pos hbody, List.dropWhile_append_of_pos hbody, hspan.1,
    hspan.2, hclash, List.append_nil]
  rfl

/-- A run goes no further before a text that closes it, if nothing in the class does that. -/
theorem run_before (hclosers : (closers.all fun d => !isMember d && !clashes d) = true)
    (h : run isMember clashes cs = some (body, rest)) :
    cs = body ++ rest ∧ (∀ d ∈ body, d ∉ closers) ∧
      ∀ tail, (rest = [] → Closes tail) →
        run isMember clashes (body ++ (rest ++ tail)) = some (body, rest ++ tail) := by
  have hneither : ∀ d ∈ closers, isMember d = false ∧ clashes d = false := by simpa using hclosers
  obtain ⟨hcs, hbody, hrest⟩ := run_eq_some h
  refine ⟨hcs, fun d hd hcloser => ?_, fun tail htail => run_append hbody ?_⟩
  · have hmember := hbody d hd
    rw [(hneither d hcloser).1] at hmember
    cases hmember
  · cases rest with
    | nil => exact fun d hd => hneither d (htail rfl d hd)
    | cons d rest => exact hrest

theorem ofRun_before {make : List Char → Lexeme}
    (hclosers : (closers.all fun d => !isMember d && !clashes d) = true)
    (h : (run isMember clashes cs).map (ofRun make) = some (t, rest)) :
    ∃ used, cs = used ++ rest ∧ (∀ d ∈ used, d ∉ closers) ∧
      ∀ tail, (rest = [] → Closes tail) →
        (run isMember clashes (used ++ (rest ++ tail))).map (ofRun make) =
          some (t, rest ++ tail) := by
  obtain ⟨⟨used, rest'⟩, hrun, h⟩ := Option.map_eq_some_iff.mp h
  cases h
  obtain ⟨hcs, hused, hbefore⟩ := run_before hclosers hrun
  refine ⟨used, hcs, hused, fun tail htail => ?_⟩
  rw [hbefore tail htail]
  rfl

/-- The last character of the text, if there is one, ends any lexeme before it. -/
def Ended (cs : List Char) : Prop := ∀ c ∈ cs.getLast?, c ∈ closers

theorem not_ended (hcs : ∀ d ∈ c :: cs, d ∉ closers) : ¬ Ended (c :: cs) := by
  intro hended
  have hlast := List.getLast?_eq_some_getLast (List.cons_ne_nil c cs)
  exact hcs _ (List.getLast_mem _) (hended _ hlast)

/-- A lexeme without quotes is the same before any text where it is ended: by what follows it
already, by its own last character or by the text. -/
theorem read_plain (h : read c cs = some (t, rest)) (hdouble : c ≠ '\x22') (hsingle : c ≠ '\x27') :
    ∃ used, cs = used ++ rest ∧
      ∀ tail, (rest = [] → Ended (c :: used) ∨ Closes tail) →
        read c (used ++ (rest ++ tail)) = some (t, rest ++ tail) := by
  unfold read at h ⊢
  by_cases hspace : spaces.contains c = true
  · rw [if_pos hspace] at h
    cases h
    exact ⟨[], rfl, fun _ _ => if_pos hspace⟩
  simp only [if_neg hspace] at h ⊢
  by_cases hmark : marks.contains c = true
  · rw [if_pos hmark] at h
    cases h
    exact ⟨[], rfl, fun _ _ => if_pos hmark⟩
  simp only [if_neg hmark] at h ⊢
  have hc : c ∉ closers := by
    simpa [closers, -Bool.not_eq_true] using And.intro hspace hmark
  -- From here on no character of the lexeme ends it, so the text behind it has to.
  have hopen : ∀ {used}, (∀ d ∈ used, d ∉ closers) → ∀ {tail},
      (rest = [] → Ended (c :: used) ∨ Closes tail) → rest = [] → Closes tail :=
    fun hused _ hend hnil =>
      (hend hnil).resolve_left (not_ended (List.forall_mem_cons.mpr ⟨hc, hused⟩))
  by_cases hpoint : c = '.'
  · simp only [if_pos hpoint] at h ⊢
    split at h
    · cases h
    · next hclash =>
        cases h
        refine ⟨[], rfl, fun tail hend => if_neg ?_⟩
        cases cs with
        | cons d cs => simpa using hclash
        | nil =>
            cases tail with
            | nil => simp
            | cons d tail =>
                have hd := hopen (List.forall_mem_nil _) hend rfl d rfl
                simp [(not_member_of_closer hd).1, (not_member_of_closer hd).2.2]
  simp only [if_neg hpoint, if_neg hdouble, if_neg hsingle] at h ⊢
  by_cases hdollar : c = '$'
  · simp only [if_pos hdollar] at h ⊢
    obtain ⟨⟨digits, rest'⟩, hrun, h⟩ := Option.bind_eq_some_iff.mp h
    by_cases hdigits : digits = []
    · simp [hdigits] at h
    · simp only [if_neg hdigits] at h
      cases h
      obtain ⟨hcs, hused, hbefore⟩ := run_before (by decide) hrun
      refine ⟨digits, hcs, fun tail hend => ?_⟩
      rw [hbefore tail (hopen hused hend), Option.bind_some, if_neg hdigits]
  simp only [if_neg hdollar] at h ⊢
  by_cases hdigit : c.isDigit = true
  · simp only [if_pos hdigit] at h ⊢
    obtain ⟨used, hcs, hused, hbefore⟩ := ofRun_before (by decide) h
    exact ⟨used, hcs, fun tail hend => hbefore tail (hopen hused hend)⟩
  simp only [if_neg hdigit] at h ⊢
  by_cases hword : isWordStart c = true
  · simp only [if_pos hword] at h ⊢
    obtain ⟨used, hcs, hused, hbefore⟩ := ofRun_before (by decide) h
    exact ⟨used, hcs, fun tail hend => hbefore tail (hopen hused hend)⟩
  simp only [if_neg hword] at h ⊢
  by_cases hoperator : isOperatorChar c = true
  · simp only [if_pos hoperator] at h ⊢
    obtain ⟨used, hcs, hused, hbefore⟩ := ofRun_before (by decide) h
    exact ⟨used, hcs, fun tail hend => hbefore tail (hopen hused hend)⟩
  · rw [if_neg hoperator] at h
    cases h

/-! ## Whole texts -/

/-- The text is read as the lexemes. -/
def Lexes (cs : List Char) (ts : List Lexeme) : Prop :=
  ∀ fuel, cs.length ≤ fuel → readAll fuel cs = some ts

theorem Lexes.nil : Lexes [] [] := fun fuel _ => by cases fuel <;> rfl

theorem Lexes.cons {used : List Char} (hread : read c (used ++ rest) = some (t, rest))
    (hrest : Lexes rest ts) : Lexes (c :: (used ++ rest)) (t.toList ++ ts) := by
  intro fuel hfuel
  cases fuel with
  | zero => simp at hfuel
  | succ fuel =>
      simp only [List.length_cons, List.length_append] at hfuel
      have hlexemes := hrest fuel (by omega)
      simp [readAll, hread, hlexemes]

theorem Lexes.ofText {s : String} (h : Lexes s.toList ts) : ofText s = some ts :=
  h _ (Nat.le_refl _)

/-- A text without quotes is read before another one as it is read on its own, if it is ended
by itself or by the other. -/
theorem lexes_append {fuel : Nat} (hplain : ∀ d ∈ cs, d ≠ '\x22' ∧ d ≠ '\x27')
    (h : readAll fuel cs = some us) (hend : Ended cs ∨ Closes tail) (htail : Lexes tail ts) :
    Lexes (cs ++ tail) (us ++ ts) := by
  induction fuel, cs using readAll.induct generalizing us with
  | case1 =>
      rw [readAll] at h
      cases h
      exact htail
  | case2 => cases h
  | case3 fuel c cs ih =>
      obtain ⟨⟨t, rest⟩, hread, h⟩ := Option.bind_eq_some_iff.mp h
      obtain ⟨ts', hrest, h⟩ := Option.bind_eq_some_iff.mp h
      cases h
      obtain ⟨hc, hcs⟩ := List.forall_mem_cons.mp hplain
      obtain ⟨used, rfl, hbefore⟩ := read_plain hread hc.1 hc.2
      have hends : Ended (c :: (used ++ rest)) → Ended rest := by
        intro hended d hd
        refine hended d ?_
        rw [← List.cons_append, List.getLast?_append, Option.mem_def.mp hd]
        rfl
      have hlexes := ih rest (fun d hd => hcs d (List.mem_append_right _ hd))
        hrest (hend.imp_left hends)
      rw [List.append_assoc, List.cons_append, List.append_assoc]
      refine .cons (hbefore tail fun hnil => ?_) hlexes
      rw [hnil, List.append_nil] at hend
      exact hend

/-! ## What callers have in a statement -/

/-- Between two quotes of which there is no other behind the second, text with each quote
doubled is read as it was. -/
theorem delimited_doubled (quote : Char) (body : List Char) (htail : tail.head? ≠ some quote) :
    delimited quote
      (body.flatMap (fun c => if c = quote then [quote, quote] else [c]) ++ quote :: tail) =
      some (body, tail) := by
  induction body with
  | nil =>
      cases tail with
      | nil => simp [delimited]
      | cons d tail =>
          have hd : d ≠ quote := by simpa using htail
          simp [delimited, hd]
  | cons c body ih =>
      by_cases hc : c = quote
      · simp [delimited, hc, ih]
      · rw [List.flatMap_cons, if_neg hc, List.singleton_append, List.cons_append,
          delimited.eq_def]
        simp [hc, ih]

/-- A name is one identifier, whatever characters it has. -/
theorem lexes_quoted (name : String) (htail : tail.head? ≠ some '\x22') (h : Lexes tail ts) :
    Lexes ((quoted name).toList ++ tail) (.identifier name :: ts) := by
  have hread : read '\x22' ((name.toList.flatMap fun c =>
      if c = '\x22' then ['\x22', '\x22'] else [c]) ++ ['\x22'] ++ tail) =
        some (some (.identifier name), tail) := by
    rw [List.append_assoc, List.singleton_append, read]
    simp [spaces, marks, delimited_doubled '\x22' name.toList htail]
  have hlexes := Lexes.cons hread h
  simpa [quoted] using hlexes

theorem digits_toString (n : Nat) :
    (toString n).toList ≠ [] ∧ ∀ d ∈ (toString n).toList, d.isDigit = true := by
  have htext : (toString n).toList = Nat.toDigits 10 n := by
    rw [Nat.toString_eq_repr, Nat.repr_eq_ofList_toDigits, String.toList_ofList]
  rw [htext]
  exact ⟨Nat.toDigits_ne_nil, fun _ => Text.isDigit_of_mem_digits⟩

/-- A digit begins a number: no rule for other characters comes first. -/
theorem not_mem_of_isDigit (hc : c.isDigit = true) :
    c ∉ closers ++ ['.', '\x22', '\x27', '$'] := by
  intro hmem
  have hnone : ((closers ++ ['.', '\x22', '\x27', '$']).all fun d => !d.isDigit) = true := by decide
  have hdigit := List.all_eq_true.mp hnone c hmem
  rw [hc] at hdigit
  cases hdigit

theorem lexes_number {digits : String} (hne : digits.toList ≠ [])
    (hdigits : ∀ d ∈ digits.toList, d.isDigit = true) (hcloses : Closes tail)
    (h : Lexes tail ts) : Lexes (digits.toList ++ tail) (.number digits :: ts) := by
  obtain ⟨d, ds, hcons⟩ := List.exists_cons_of_ne_nil hne
  rw [hcons] at hdigits ⊢
  obtain ⟨hd, hds⟩ := List.forall_mem_cons.mp hdigits
  have hrun : run Char.isDigit (fun d => isWordChar d || d = '.') (ds ++ tail) = some (ds, tail) :=
    run_append hds fun e he => by
      obtain ⟨hdigit, hword, hpoint⟩ := not_member_of_closer (hcloses e he)
      simp [hdigit, hword, hpoint]
  have hother := not_mem_of_isDigit hd
  have hread : read d (ds ++ tail) = some (some (.number digits), tail) := by
    have htext : String.ofList (d :: ds) = digits := by rw [← hcons, String.ofList_toList]
    simp only [closers, List.mem_append, List.mem_cons, List.not_mem_nil, or_false,
      not_or] at hother
    obtain ⟨⟨hspace, hmark⟩, hpoint, hdouble, hsingle, hdollar⟩ := hother
    rw [← List.contains_iff_mem] at hspace hmark
    rw [read, if_neg hspace, if_neg hmark, if_neg hpoint, if_neg hdouble, if_neg hsingle,
      if_neg hdollar, if_pos hd, hrun, Option.map_some, ofRun, htext]
  exact Lexes.cons hread h

theorem lexes_parameter {digits : String} (hne : digits.toList ≠ [])
    (hdigits : ∀ d ∈ digits.toList, d.isDigit = true) (hcloses : Closes tail)
    (h : Lexes tail ts) : Lexes ('$' :: (digits.toList ++ tail)) (.parameter digits :: ts) := by
  have hrun : run Char.isDigit isWordChar (digits.toList ++ tail) = some (digits.toList, tail) :=
    run_append hdigits fun d hd =>
      have hcloser := not_member_of_closer (hcloses d hd)
      ⟨hcloser.1, hcloser.2.1⟩
  have hread : read '$' (digits.toList ++ tail) = some (some (.parameter digits), tail) := by
    simp [read, spaces, marks, hrun, hne]
  exact Lexes.cons hread h

theorem doubled_eq_self (hcs : quote ∉ cs) :
    (cs.flatMap fun c => if c = quote then [quote, quote] else [c]) = cs := by
  induction cs with
  | nil => rfl
  | cons c cs ih =>
      rw [List.mem_cons, not_or] at hcs
      rw [List.flatMap_cons, if_neg (Ne.symm hcs.1), ih hcs.2, List.singleton_append]

/-- Text without quotes is one literal, if no other one follows. -/
theorem lexes_literal {s : String} (hs : '\x27' ∉ s.toList)
    (htail : (tail.dropWhile spaces.contains).head? ≠ some '\x27') (h : Lexes tail ts) :
    Lexes (("'" ++ s ++ "'").toList ++ tail) (.literal s :: ts) := by
  have hhead : tail.head? ≠ some '\x27' := by
    intro hquote
    obtain ⟨tail, rfl⟩ := List.head?_eq_some_iff.mp hquote
    exact htail rfl
  have hdelimited := delimited_doubled '\x27' s.toList hhead
  rw [doubled_eq_self hs] at hdelimited
  have hread : read '\x27' (s.toList ++ ['\x27'] ++ tail) = some (some (.literal s), tail) := by
    rw [List.append_assoc, List.singleton_append, read, if_neg (by decide), if_neg (by decide),
      if_neg (by decide), if_neg (by decide), if_pos rfl, hdelimited, Option.bind_some]
    simp only [if_neg htail, String.ofList_toList]
  have hlexes := Lexes.cons hread h
  simpa using hlexes

end Lexeme

end Grove.Sql
