import Grove.Text

/-!
# Sorting and paging

A query asks for its records in an order and for one window of them. The window is what
is left of the options after defaults and limits: it always has a size, and a page counts
only when nothing says where to start.
-/

namespace Grove

structure OrderKey where
  field : String
  descending : Bool
deriving DecidableEq, Inhabited

/-- What a query asks for besides its criteria. `fetch` names related resources whose
records are put into the ones found. -/
structure Paging where
  sort : List OrderKey := []
  limit : Option Nat := none
  offset : Option Nat := none
  page : Option Nat := none
  fetch : List String := []
deriving DecidableEq, Inhabited

/-- How many records to take, and how many to pass over before. -/
structure Window where
  limit : Nat
  offset : Nat
deriving DecidableEq, Inhabited

namespace OrderKey

/-- Reads one entry; a hyphen before the field turns the order around. -/
def ofEntry (entry : String) : OrderKey :=
  match entry.toList with
  | '-' :: field => ⟨String.ofList field, true⟩
  | _ => ⟨entry, false⟩

/-- Reads entries between commas. Entries without a field are passed over. -/
def readAll (s : String) : List OrderKey :=
  ((Text.entries s).map ofEntry).filter fun k => k.field ≠ ""

end OrderKey

namespace Window

/-- The size of a window when nothing asks for another. -/
def usualSize : Nat := 50

def largestSize : Nat := 1000

def cut {α : Type} (w : Window) (xs : List α) : List α := (xs.drop w.offset).take w.limit

end Window

/-- The window that the options ask for. A start beyond the range of offsets is the end of
that range. -/
def Paging.window (o : Paging) : Window :=
  let limit := match o.limit with
    | none | some 0 => Window.usualSize
    | some n => min n Window.largestSize
  let offset := match o.offset, o.page with
    | none, some page => min (page * limit) Text.maxUnsigned32
    | some 0, some page => min (page * limit) Text.maxUnsigned32
    | offset, _ => offset.getD 0
  ⟨limit, offset⟩

end Grove
