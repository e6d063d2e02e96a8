/-!
# TOML values and tables

A TOML document builds a tree of tables.  Where a table came from decides what may
still be added to it: a table with a header of its own is complete once the next
header comes, one that a dotted key made can grow by further dotted keys, one that
only stands on the way to another may still get a header, and a table written inline
never changes.  A table is reached by its path, and tables are made on the way, unless
something is in the way that may not be extended.
-/

namespace MasterPackage.Toml

/-- How a table came to be. -/
inductive Origin where
  | header
  /-- It stands on the way to a table with a header. -/
  | onTheWay
  | dottedKey
  | inline
  deriving DecidableEq, Repr

/-- A TOML value. -/
inductive Value where
  | text (s : String)
  | integer (n : Int)
  | float
  | boolean (b : Bool)
  /-- A date, a time, or both, in the one form they are written back in. -/
  | moment (s : String)
  | array (items : List Value)
  | table (origin : Origin) (members : List (String × Value))
  /-- The tables of headers in double brackets. -/
  | tables (items : List (List (String × Value)))

/-- The members of a table. -/
abbrev Members := List (String × Value)

namespace Members

/-- The value of a key. -/
def get? (ms : Members) (key : String) : Option Value := ms.lookup key

/-- Gives a key another value, or adds it at the end. -/
def put (ms : Members) (key : String) (v : Value) : Members :=
  match ms with
  | [] => [(key, v)]
  | (k, w) :: rest => if k = key then (key, v) :: rest else (k, w) :: put rest key v

/-- Adds a key that is new. -/
def insertNew? (ms : Members) (key : String) (v : Value) : Option Members :=
  if (ms.get? key).isSome then none else some (ms ++ [(key, v)])

/-- Edits the table at a path below a table of the given origin.  Tables missing on
the way are made; `dotted` tells whether a dotted key asks for them, or a header. -/
def editAt (dotted : Bool) (edit : Origin → Members → Option Members) :
    List String → Origin → Members → Option Members
  | [], origin, ms => edit origin ms
  | key :: path, _, ms =>
    let made := if dotted then Origin.dottedKey else .onTheWay
    match ms.get? key with
    | none => (editAt dotted edit path made []).map fun t => ms ++ [(key, .table made t)]
    | some (.table origin t) =>
      if origin = .inline ∨ (dotted ∧ origin = .header) then none
      else (editAt dotted edit path origin t).map fun t => ms.put key (.table origin t)
    | some (.tables items) =>
      match items.getLast? with
      | none => none
      | some t =>
        (editAt dotted edit path .header t).map fun t =>
          ms.put key (.tables (items.dropLast ++ [t]))
    | some _ => none

/-- Sets a key, given with the dotted keys before it.  Only a table that dotted keys
made can be reached by them. -/
def setKey? (ms : Members) (origin : Origin) (path : List String) (key : String) (v : Value) :
    Option Members :=
  editAt true
    (fun origin ms =>
      if origin = .dottedKey ↔ path = [] then none else ms.insertNew? key v)
    path origin ms

end Members

end MasterPackage.Toml
