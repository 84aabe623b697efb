import Grove.Document.Order

/-!
# Collections

A collection holds records in the order in which they came. Each has a sequence number,
and a number is never given twice. Every operation is said through the list of records:
what is asked for is a filtered, sorted and cut list of them, and what is changed keeps
its place.
-/

namespace Grove

structure Collection where
  /-- The number of the next record. -/
  next : Nat := 0
  rows : List (Nat × Record) := []
deriving Inhabited

namespace Collection

/-- The collection of stored rows, which continues after the last of them. -/
def ofRows (rows : List (Nat × Record)) : Collection where
  next := (rows.getLast?.map (·.1 + 1)).getD 0
  rows

/-- The records in the order in which they came. -/
def records (c : Collection) : List Record := c.rows.map (·.2)

/-- Whether a record has that key; an integer and a float are different keys. -/
def hasKey (c : Collection) (primaryKey : String) (key : Json) : Bool :=
  c.records.any fun r => (r.get? primaryKey).any (·.same key)

def push (c : Collection) (r : Record) : Collection := ⟨c.next + 1, c.rows ++ [(c.next, r)]⟩

def matching (c : Collection) (m : Matcher) : List Record := c.records.filter fun r => m.accepts r

/-- The records that match, in the order of the keys and cut to the window. -/
def select (c : Collection) (m : Matcher) (o : Paging) : List Record :=
  o.window.cut (Record.sortBy o.sort (c.matching m))

def changed (c : Collection) (m : Matcher) (changes : Record) : List (Nat × Record) :=
  (c.rows.filter fun row => m.accepts row.2).map fun row => (row.1, row.2.update changes)

def update (c : Collection) (m : Matcher) (changes : Record) : Collection :=
  { c with rows := c.rows.map fun row =>
      if m.accepts row.2 then (row.1, row.2.update changes) else row }

def doomed (c : Collection) (m : Matcher) : List Nat :=
  (c.rows.filter fun row => m.accepts row.2).map (·.1)

def remove (c : Collection) (m : Matcher) : Collection :=
  { c with rows := c.rows.filter fun row => !m.accepts row.2 }

@[simp] theorem records_push (c : Collection) (r : Record) :
    (c.push r).records = c.records ++ [r] := by
  simp [push, records]

theorem records_remove (c : Collection) (m : Matcher) :
    (c.remove m).records = c.records.filter fun r => !m.accepts r := by
  simp [remove, records, List.filter_map, Function.comp_def]

theorem length_doomed (c : Collection) (m : Matcher) :
    (c.doomed m).length = (c.matching m).length := by
  simp [doomed, matching, records, List.filter_map, Function.comp_def]

end Collection

end Grove
