import Grove.Document.Matcher
import Grove.Window

/-!
# The order of documents

Records are sorted by one field after another. Values of different kinds are ordered by
kind: nothing and null, booleans, numbers, strings, and then lists and objects, which are
all alike. Records that no key tells apart stay in the order they were in.
-/

namespace Grove

def Json.kindRank : Option Json → Nat
  | none | some .null => 0
  | some (.bool _) => 1
  | some (.number _) => 2
  | some (.string _) => 3
  | some _ => 4

def Json.orderFields (a b : Option Json) : Ordering :=
  match a, b with
  | some x, some y => (x.order? y).getD (compare (kindRank a) (kindRank b))
  | _, _ => compare (kindRank a) (kindRank b)

namespace Record

def compareBy (key : OrderKey) (a b : Record) : Ordering :=
  let o := Json.orderFields (a.get? key.field) (b.get? key.field)
  if key.descending then o.swap else o

/-- The order of two records: what the first key says that tells them apart. -/
def compareByAll (keys : List OrderKey) (a b : Record) : Ordering :=
  match keys with
  | [] => .eq
  | key :: keys => (compareBy key a b).then (compareByAll keys a b)

def sortBy (keys : List OrderKey) (records : List Record) : List Record :=
  if keys.isEmpty then records
  else records.mergeSort fun a b => compareByAll keys a b != .gt

end Record

end Grove
