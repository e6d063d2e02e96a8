import MasterPackage.Toml.Lexeme
import MasterPackage.Toml.Value

/-!
# Reading TOML

A document is a sequence of lines that set keys, with headers between them that say
which table the following keys belong to.  A document that is no TOML, or sets a key
twice, reads as nothing.
-/

namespace MasterPackage.Toml

/-! ## Values -/

mutual

/-- The value at the front of a text, `depth` levels inside other values. -/
def value? : Nat → Nat → List Char → Option (Value × List Char)
  | 0, _, _ => none
  | fuel + 1, depth, s =>
    match s with
    | '"' :: _ | '\'' :: _ => (string? s).map fun (t, r) => (.text t, r)
    | '[' :: r =>
      if maxDepth ≤ depth + 1 then none
      else (items? fuel (depth + 1) r).map fun (vs, r) => (.array vs, r)
    | '\x7b' :: r =>
      if maxDepth ≤ depth + 1 then none
      else
        match blank r with
        | '\x7d' :: r => some (.table .inline [], r)
        | r => (members? fuel (depth + 1) [] r).map fun (ms, r) => (.table .inline ms, r)
    | 't' :: 'r' :: 'u' :: 'e' :: r => some (.boolean true, r)
    | 'f' :: 'a' :: 'l' :: 's' :: 'e' :: r => some (.boolean false, r)
    | _ =>
      if isMoment s then (moment? s).map fun (t, r) => (.moment t, r)
      else
        match float? s with
        | some r => some (.float, r)
        | none => (integer? s).map fun (n, r) => (.integer n, r)

/-- The items of an array up to its closing bracket. -/
def items? : Nat → Nat → List Char → Option (List Value × List Char)
  | 0, _, _ => none
  | fuel + 1, depth, s =>
    match gap (s.length + 1) s with
    | ']' :: r => some ([], r)
    | r =>
      match value? fuel depth r with
      | none => none
      | some (v, r) =>
        match gap (r.length + 1) r with
        | ']' :: r => some ([v], r)
        | ',' :: r => (items? fuel depth r).map fun (vs, r) => (v :: vs, r)
        | _ => none

/-- The members of an inline table up to its closing brace, added to those before. -/
def members? : Nat → Nat → Members → List Char → Option (Members × List Char)
  | 0, _, _, _ => none
  | fuel + 1, depth, ms, s =>
    match dottedKey? s with
    | some (path, k, '=' :: r) =>
      match value? fuel depth (blank r) with
      | none => none
      | some (v, r) =>
        match ms.setKey? .inline path k v with
        | none => none
        | some ms =>
          match blank r with
          | '\x7d' :: r => some (ms, r)
          | ',' :: r => members? fuel depth ms r
          | _ => none
    | _ => none

end

/-! ## Documents -/

/-- A document under way: the tables that are complete, and the one that keys are being
added to, with its path.  No path stands for the document itself. -/
structure Draft where
  root : Members
  path : List String
  isItem : Bool
  current : Members

namespace Draft

/-- Nothing read yet. -/
def empty : Draft := ⟨[], [], false, []⟩

/-- Puts the current table in its place among the complete ones. -/
def close? (d : Draft) : Option Members :=
  match d.path.getLast? with
  | none => some d.current
  | some key =>
    Members.editAt false
      (fun _ ms =>
        if d.isItem then
          match ms.get? key with
          | none => some (ms.put key (.tables [d.current]))
          | some (.tables items) => some (ms.put key (.tables (items ++ [d.current])))
          | some _ => none
        else some (ms.put key (.table .header d.current)))
      d.path.dropLast .header d.root

/-- Whether a header may stand for what its key holds: nothing yet, or a table that
stood only on the way to others. -/
def takesHeader : Option Value → Bool
  | none => true
  | some (.table .onTheWay _) => true
  | some _ => false

/-- Whether a header in double brackets may stand for what its key holds: nothing yet,
or the tables before it. -/
def takesItem : Option Value → Bool
  | none => true
  | some (.tables _) => true
  | some _ => false

/-- Whether a path can be followed, and what a key holds at its end is as wanted. -/
def allows (root : Members) (path : List String) (key : String) (wanted : Option Value → Bool) :
    Bool :=
  (Members.editAt false (fun _ ms => if wanted (ms.get? key) then some ms else none) path .header
    root).isSome

/-- The table at a path; a missing table is empty. -/
def tableAt : List String → Members → Members
  | [], ms => ms
  | key :: path, ms =>
    match ms.get? key with
    | some (.table _ t) => tableAt path t
    | some (.tables items) => tableAt path (items.getLast?.getD [])
    | _ => []

/-- What the table of a header keeps. -/
def held (root : Members) (path : List String) (key : String) : Members :=
  match (tableAt path root).get? key with
  | some (.table _ t) => t
  | _ => []

/-- Goes on with the table of a header.  A table that stood only on the way to others
keeps what it has. -/
def open? (d : Draft) (path : List String) (key : String) : Option Draft := do
  let root ← d.close?
  guard (allows root path key takesHeader)
  pure ⟨root, path ++ [key], false, held root path key⟩

/-- Goes on with one more table of a header in double brackets. -/
def openItem? (d : Draft) (path : List String) (key : String) : Option Draft := do
  let root ← d.close?
  guard (allows root path key takesItem)
  pure ⟨root, path ++ [key], true, []⟩

/-- Sets a key of the current table. -/
def set? (d : Draft) (path : List String) (key : String) (v : Value) : Option Draft :=
  (d.current.setKey? .header path key v).map fun ms => { d with current := ms }

end Draft

/-- Reads the line of a header, given the text after its first bracket. -/
def header? (d : Draft) (s : List Char) : Option (Draft × List Char) :=
  match s with
  | '[' :: r => do
    let (path, key, r) ← dottedKey? r
    let r ← after? ']' r
    let r ← after? ']' r
    let r ← lineEnd? r
    pure (← d.openItem? path key, r)
  | _ => do
    let (path, key, r) ← dottedKey? s
    let r ← after? ']' r
    let r ← lineEnd? r
    pure (← d.open? path key, r)

/-- Reads the line of a key. -/
def assignment? (d : Draft) (s : List Char) : Option (Draft × List Char) := do
  let (path, key, r) ← dottedKey? s
  let r ← after? '=' r
  let (v, r) ← value? (r.length + 1) 0 (blank r)
  let r ← lineEnd? r
  pure (← d.set? path key v, r)

/-- Reads lines to the end of a document; the fuel bounds their number. -/
def lines? : Nat → Draft → List Char → Option Draft
  | 0, _, _ => none
  | fuel + 1, d, s =>
    match blank s with
    | [] => some d
    | '[' :: r =>
      match header? d r with
      | some (d, r) => lines? fuel d r
      | none => none
    | r =>
      match lineEnd? r with
      | some r => lines? fuel d r
      | none =>
        match assignment? d r with
        | some (d, r) => lines? fuel d r
        | none => none

/-- Reads a document; a byte-order mark may stand in front. -/
def parse? (text : String) : Option Members :=
  let s := text.toList
  let s := if s.head? = some Text.Utf8.mark then s.drop 1 else s
  (lines? (s.length + 1) .empty s).bind Draft.close?

end MasterPackage.Toml
