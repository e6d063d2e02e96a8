/-!
# Log notes

What the library reports while it works.  A note is a value: computations return
the notes they made, oldest first, and the caller decides which of them to show.
-/

namespace MasterPackage

/-- How severe a note is. -/
inductive Level where
  | error
  | warn
  | info
  | debug
  | trace
  deriving DecidableEq, Repr

namespace Level

/-- Rank of a level, the most severe first. -/
def rank : Level → Nat
  | error => 0
  | warn => 1
  | info => 2
  | debug => 3
  | trace => 4

/-- The name of a level. -/
def name : Level → String
  | error => "ERROR"
  | warn => "WARN"
  | info => "INFO"
  | debug => "DEBUG"
  | trace => "TRACE"

/-- Whether a threshold lets a note of another level through. -/
def shows (threshold level : Level) : Bool := level.rank ≤ threshold.rank

end Level

/-- One note: its level, what happened, and named values in the order they are told. -/
structure Note where
  level : Level
  message : String
  fields : List (String × String)
  deriving DecidableEq, Repr

namespace Note

/-- A note on one line. -/
def line (n : Note) : String :=
  n.level.name ++ " " ++ n.message ++
    String.join (n.fields.map fun (name, value) => " " ++ name ++ "=" ++ value)

/-- The notes that a threshold lets through. -/
def upTo (threshold : Level) (notes : List Note) : List Note :=
  notes.filter fun n => threshold.shows n.level

theorem upTo_append (threshold : Level) (notes more : List Note) :
    upTo threshold (notes ++ more) = upTo threshold notes ++ upTo threshold more :=
  List.filter_append ..

end Note

end MasterPackage
