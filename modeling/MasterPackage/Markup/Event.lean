import MasterPackage.Markup.Token

/-!
# Events

The tokens of a document read as events: an element starts, the innermost element
finishes, text arrives.  An element without content starts and finishes at one place,
and what vanishes from a document gives no event.  Reading checks that every end tag
repeats the full name of the start tag it belongs to; everything else about the
nesting is left to the tree.
-/

namespace MasterPackage.Markup

/-- What happens at one place of a document. -/
inductive Event where
  /-- An element of the given local name starts. -/
  | start (name : String)
  /-- The innermost element finishes. -/
  | finish
  | text (s : String)
  deriving DecidableEq, Repr

/-- The part of a name after its first colon, or all of a name without one. -/
def localName (name : List Char) : List Char :=
  match name.dropWhile (· != ':') with
  | _ :: part => part
  | [] => name

/-- The events of a token, with the full names of the elements that are open after it,
innermost first; given the names open before it. -/
def Event.ofToken (opened : List (List Char)) : Token → Except Fault (List Event × List (List Char))
  | .text raw =>
    match Reference.expand raw with
    | .ok s => .ok ([.text (String.ofList s)], opened)
    | .error f => .error (.reference f)
  | .characters s => .ok ([.text (String.ofList s)], opened)
  | .start name true =>
    .ok ([.start (String.ofList (localName name)), .finish], opened)
  | .start name false => .ok ([.start (String.ofList (localName name))], name :: opened)
  | .finish found =>
    match opened with
    | [] => .error (.strayEnd (String.ofList found))
    | expected :: rest =>
      if expected = found then .ok ([.finish], rest)
      else .error (.wrongEnd (String.ofList expected) (String.ofList found))
  | .aside => .ok ([], opened)

/-- What a text reads as: its events with their byte positions, and then either the
position of its end or the first fault and where it begins. -/
structure Reading where
  events : List (Nat × Event)
  ending : Except (Nat × Fault) Nat

namespace Reading

/-- A reading with events before it. -/
def after (events : List (Nat × Event)) (r : Reading) : Reading := ⟨events ++ r.events, r.ending⟩

/-- Reads a text that begins at the given position inside the elements of the given
names. -/
def of (opened : List (List Char)) (position : Nat) (s : List Char) : Reading :=
  match s with
  | [] => ⟨[], .ok position⟩
  | c :: r =>
    match _h : Token.cut c r with
    | .error f => ⟨[], .error (position, f)⟩
    | .ok t =>
      match Event.ofToken opened t.token with
      | .error f => ⟨[], .error (position, f)⟩
      | .ok (events, opened) =>
        after (events.map fun e => (position, e))
          (of opened (position + Text.Utf8.width t.chars) t.rest)
termination_by s.length
decreasing_by exact Token.cut_rest_length _h

theorem of_eq_nil (opened : List (List Char)) (position : Nat) :
    of opened position [] = ⟨[], .ok position⟩ := by rw [of]

/-- A token that fits gives its events, and reading goes on after it. -/
theorem of_token {opened opened' : List (List Char)} {c : Char} {r : List Char} {t : Token.Cut}
    {events : List Event} (hcut : Token.cut c r = .ok t)
    (htoken : Event.ofToken opened t.token = .ok (events, opened')) (position : Nat) :
    of opened position (c :: r) =
      after (events.map fun e => (position, e))
        (of opened' (position + Text.Utf8.width t.chars) t.rest) := by
  rw [of]
  split
  · next f hfault =>
    rw [hcut] at hfault
    cases hfault
  · next found hfound =>
    rw [hcut] at hfound
    cases hfound
    simp only [htoken]

/-- Reading ends before a token that does not fit. -/
theorem of_fault {opened : List (List Char)} {c : Char} {r : List Char} {t : Token.Cut}
    {f : Fault} (hcut : Token.cut c r = .ok t)
    (htoken : Event.ofToken opened t.token = .error f) (position : Nat) :
    of opened position (c :: r) = ⟨[], .error (position, f)⟩ := by
  rw [of]
  split
  · next g hfault =>
    rw [hcut] at hfault
    cases hfault
  · next found hfound =>
    rw [hcut] at hfound
    cases hfound
    simp only [htoken]

end Reading

end MasterPackage.Markup
