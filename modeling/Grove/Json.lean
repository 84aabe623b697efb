import Grove.Decimal.Double

/-!
# JSON values

A number is an integer or a binary64 number and keeps which it is: `1` and `1.0` are
different values, although they compare as equal numbers. The members of an object are
in the order of their names, compared character by character; that order is the one in
which they are written and visited.

A `Record` is the member list of an object on its own. Its operations are `get?`,
`insert` and `erase`, and what each does is said through `get?`.
-/

namespace Grove

/-- A number as JSON text writes it. Integers read from text lie between -2^63 and
2^64 - 1; all other numbers are binary64. -/
inductive Number where
  | int (n : Int)
  | float (x : Double)
deriving DecidableEq

namespace Number

def toDouble : Number → Double
  | .int n => Double.ofInt n
  | .float x => x

/-- Whether two numbers are written as the same kind of number with the same value. -/
def same : Number → Number → Bool
  | .int m, .int n => m == n
  | .float x, .float y => x.same y
  | _, _ => false

def cmp (a b : Number) : Ordering := a.toDouble.cmp b.toDouble

def int64? : Number → Option Int
  | .int n => if -0x8000000000000000 ≤ n && n < 0x8000000000000000 then some n else none
  | .float _ => none

end Number

inductive Json where
  | null
  | bool (b : Bool)
  | number (n : Number)
  | string (s : String)
  | array (items : List Json)
  | object (members : List (String × Json))
deriving Inhabited

structure Record where
  fields : List (String × Json)
deriving Inhabited

namespace Record

def empty : Record := ⟨[]⟩

def isEmpty (r : Record) : Bool := r.fields.isEmpty

/-- Puts a field at its place, or replaces the field of that name. -/
def insertField (name : String) (value : Json) : List (String × Json) → List (String × Json)
  | [] => [(name, value)]
  | field :: rest =>
    if name = field.1 then (name, value) :: rest
    else if name < field.1 then (name, value) :: field :: rest
    else field :: insertField name value rest

def insert (r : Record) (name : String) (value : Json) : Record :=
  ⟨insertField name value r.fields⟩

def erase (r : Record) (name : String) : Record := ⟨r.fields.filter (·.1 ≠ name)⟩

def get? (r : Record) (name : String) : Option Json := r.fields.lookup name

/-- The record with the fields of another, which win. -/
def update (r changes : Record) : Record :=
  changes.fields.foldl (fun acc field => acc.insert field.1 field.2) r

def ofList (fields : List (String × Json)) : Record :=
  (⟨[]⟩ : Record).update ⟨fields⟩

theorem lookup_cons_ite (field : String × Json) (rest : List (String × Json)) (name : String) :
    (field :: rest).lookup name = if name = field.1 then some field.2 else rest.lookup name := by
  rw [List.lookup_cons]
  by_cases h : name = field.1
  · simp [h]
  · simp [h, beq_false_of_ne h]

theorem lookup_insertField (name : String) (value : Json) (fields : List (String × Json))
    (other : String) :
    (insertField name value fields).lookup other =
      if other = name then some value else fields.lookup other := by
  induction fields with
  | nil => simp [insertField, lookup_cons_ite]
  | cons field rest ih =>
    unfold insertField
    split
    · rename_i h
      simp only [lookup_cons_ite, ← h]
      split <;> rfl
    · split
      · simp only [lookup_cons_ite]
      · rename_i h _
        simp only [lookup_cons_ite, ih]
        by_cases hf : other = field.1
        · have hn : other ≠ name := fun e => h (e ▸ hf)
          simp [hf, show field.1 ≠ name from fun e => h e.symm]
        · simp [hf]

@[simp] theorem get?_insert (r : Record) (name : String) (value : Json) (other : String) :
    (r.insert name value).get? other = if other = name then some value else r.get? other :=
  lookup_insertField name value r.fields other

theorem lookup_filter_ne (name : String) (fields : List (String × Json)) (other : String) :
    (fields.filter (·.1 ≠ name)).lookup other =
      if other = name then none else fields.lookup other := by
  induction fields with
  | nil => simp
  | cons field rest ih =>
    by_cases h : field.1 = name
    · rw [List.filter_cons_of_neg (by simp [h]), ih, lookup_cons_ite, h]
      split <;> rfl
    · rw [List.filter_cons_of_pos (by simp [h]), lookup_cons_ite, lookup_cons_ite, ih]
      by_cases hf : other = field.1
      · simp [hf, h]
      · simp [hf]

@[simp] theorem get?_erase (r : Record) (name other : String) :
    (r.erase name).get? other = if other = name then none else r.get? other :=
  lookup_filter_ne name r.fields other

end Record

namespace Json

def isNull : Json → Bool
  | .null => true
  | _ => false

def ofInt (n : Int) : Json := .number (.int n)

def ofNat (n : Nat) : Json := .number (.int n)

def string? : Json → Option String
  | .string s => some s
  | _ => none

def array? : Json → Option (List Json)
  | .array items => some items
  | _ => none

def record? : Json → Option Record
  | .object members => some ⟨members⟩
  | _ => none

/-- The object of the given fields; the last of several with one name counts. -/
def ofFields (fields : List (String × Json)) : Json := .object (Record.ofList fields).fields

mutual

/-- Equality of values: numbers must be written as the same kind of number. -/
def same : Json → Json → Bool
  | .null, .null => true
  | .bool a, .bool b => a == b
  | .number a, .number b => a.same b
  | .string a, .string b => a == b
  | .array a, .array b => sameItems a b
  | .object a, .object b => sameMembers a b
  | _, _ => false

def sameItems : List Json → List Json → Bool
  | [], [] => true
  | a :: as, b :: bs => same a b && sameItems as bs
  | _, _ => false

def sameMembers : List (String × Json) → List (String × Json) → Bool
  | [], [] => true
  | (k, a) :: as, (l, b) :: bs => k == l && same a b && sameMembers as bs
  | _, _ => false

end

end Json

end Grove
