import MasterPackage.AssetLocator
import MasterPackage.Json.Reader
import MasterPackage.Json.Value

/-!
# Identifiers and locators as JSON

An identifier is a JSON string.  A locator is written as an object with the members
`id` and `absolute_uri`; it is read from such an object, whose other members are
passed over, or from a list of exactly the two.  What was read is checked as if it
had been given directly, so no locator without a location comes out of JSON.
-/

namespace MasterPackage

namespace AssetId

/-- The identifier as a JSON string. -/
def json (i : AssetId) : Json := .text i.text

/-- Reads an identifier from the front of a JSON text. -/
def readJson (s : List Char) : Except Json.Failure (AssetId × List Char) :=
  match Json.stringValue s with
  | .error e => .error e
  | .ok (t, r) =>
    match parse t with
    | .error _ => .error .unsuitable
    | .ok i => .ok (i, r)

/-- Reads a JSON text that is an identifier. -/
def ofJson (s : String) : Except Json.Failure AssetId := readJson s.toList >>= Json.finish

end AssetId

namespace CompositionId

/-- The identifier as a JSON string. -/
def json (i : CompositionId) : Json := .text i.text

/-- Reads a JSON text that is a composition's identifier. -/
def ofJson (s : String) : Except Json.Failure CompositionId :=
  (AssetId.ofJson s).map fun i => ⟨i.uuid⟩

end CompositionId

namespace AssetLocator

/-- The locator as a JSON object. -/
def json (l : AssetLocator) : Json :=
  .object [("id", l.id.json), ("absolute_uri", .text l.uri)]

/-- The members of a locator read so far. -/
structure Members where
  id : Option AssetId
  uri : Option String

/-- No member read yet. -/
def Members.none : Members := ⟨.none, .none⟩

/-- The locator that the members make. -/
def Members.locator (m : Members) : Except Json.Failure AssetLocator :=
  match m.id, m.uri with
  | some id, some uri => (of? id uri).mapError fun _ => .unsuitable
  | _, _ => .error .unsuitable

/-- Reads a member: its name, given the text after the opening quote, and its value. -/
def readMember (m : Members) (s : List Char) : Except Json.Failure (Members × List Char) := do
  let (name, s) ← Json.stringBody s
  let name := String.ofList name
  if (name = "id" ∧ m.id.isSome) ∨ (name = "absolute_uri" ∧ m.uri.isSome) then throw .unsuitable
  let s ←
    match Json.skipSpace s with
    | ':' :: r => pure r
    | [] => throw .endsEarly
    | _ => throw .notJson
  if name = "id" then
    let (i, s) ← AssetId.readJson s
    pure (⟨some i, m.uri⟩, s)
  else if name = "absolute_uri" then
    let (u, s) ← Json.stringValue s
    pure (⟨m.id, some u⟩, s)
  else
    pure (m, ← Json.skip s)

/-- Reads the members after the first up to the closing brace.  The fuel bounds their
number. -/
def readMembers : Nat → Members → List Char → Except Json.Failure (Members × List Char)
  | 0, _, _ => .error .endsEarly
  | fuel + 1, m, s =>
    match Json.skipSpace s with
    | [] => .error .endsEarly
    | '\x7d' :: r => .ok (m, r)
    | ',' :: r =>
      match Json.skipSpace r with
      | [] => .error .endsEarly
      | '"' :: r =>
        match readMember m r with
        | .error e => .error e
        | .ok (m, r) => readMembers fuel m r
      | _ => .error .notJson
    | _ => .error .notJson

/-- Reads an object, given the text after its opening brace. -/
def readObject (s : List Char) : Except Json.Failure (AssetLocator × List Char) := do
  let (m, r) ←
    match Json.skipSpace s with
    | [] => throw .endsEarly
    | '\x7d' :: r => pure (Members.none, r)
    | '"' :: r =>
      let (m, r) ← readMember .none r
      readMembers (s.length + 1) m r
    | _ => throw .notJson
  let l ← m.locator
  pure (l, r)

/-- Reads a list of an identifier and a location, given the text after its opening
bracket. -/
def readPair (s : List Char) : Except Json.Failure (AssetLocator × List Char) := do
  let s ←
    match Json.skipSpace s with
    | [] => throw .endsEarly
    | ']' :: _ => throw .unsuitable
    | r => pure r
  let (id, s) ← AssetId.readJson s
  let s ←
    match Json.skipSpace s with
    | [] => throw .endsEarly
    | ']' :: _ => throw .unsuitable
    | ',' :: r =>
      match Json.skipSpace r with
      | [] => throw .endsEarly
      | ']' :: _ => throw .notJson
      | r => pure r
    | _ => throw .notJson
  let (uri, s) ← Json.stringValue s
  let s ←
    match Json.skipSpace s with
    | [] => throw .endsEarly
    | ']' :: r => pure r
    | _ => throw .notJson
  let l ← (of? id uri).mapError fun _ => .unsuitable
  pure (l, s)

/-- Reads a JSON text that is a locator. -/
def ofJson (s : String) : Except Json.Failure AssetLocator := do
  match Json.skipSpace s.toList with
  | '\x7b' :: r => Json.finish (← readObject r)
  | '[' :: r => Json.finish (← readPair r)
  | r => throw (Json.refusal r)

end AssetLocator

end MasterPackage
