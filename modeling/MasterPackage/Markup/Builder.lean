import MasterPackage.Attempt
import MasterPackage.Log
import MasterPackage.Markup.Element
import MasterPackage.Markup.Event

/-!
# Building a tree

A tree is built from events.  The elements that have started and not finished form a
stack; text goes to the innermost of them, and a finished element becomes the last
child of the one around it, or the root if there is none around it.  Outside the root
only blank text may stand, and a second root is noticed when it finishes.
-/

namespace MasterPackage.Markup

/-- An element that has started, with its children so far, the last one first. -/
structure Unfinished where
  name : String
  text : String
  childrenRev : List Element

/-- An element that just started. -/
def Unfinished.start (name : String) : Unfinished := ⟨name, "", []⟩

/-- The element as it is when it finishes. -/
def Unfinished.element (u : Unfinished) : Element := ⟨u.name, u.text, u.childrenRev.reverse⟩

/-- The elements under way, innermost first, and the root once it is finished. -/
structure Builder where
  opened : List Unfinished
  root : Option Element

namespace Builder

/-- Nothing built yet. -/
def empty : Builder := ⟨[], none⟩

/-- Starts an element. -/
def start (b : Builder) (name : String) : Builder := { b with opened := .start name :: b.opened }

/-- Finishes the innermost element. -/
def finish (b : Builder) : Except Fault Builder :=
  match b.opened with
  | [] => .error .nothingToClose
  | [u] =>
    match b.root with
    | none => .ok ⟨[], some u.element⟩
    | some _ => .error .secondRoot
  | u :: parent :: rest =>
    .ok { b with opened := { parent with childrenRev := u.element :: parent.childrenRev } :: rest }

/-- Adds text. -/
def text (b : Builder) (s : String) : Except Fault Builder :=
  match b.opened with
  | u :: rest => .ok { b with opened := { u with text := u.text ++ s } :: rest }
  | [] => if Text.trim s.toList = [] then .ok b else .error .textOutsideRoot

/-- What one event does. -/
def step (b : Builder) : Event → Except Fault Builder
  | .start name => .ok (b.start name)
  | .finish => b.finish
  | .text s => b.text s

/-- The root, unless an element is still under way. -/
def complete? (b : Builder) : Except Fault (Option Element) :=
  match b.opened with
  | u :: _ => .error (.unclosed u.name)
  | [] => .ok b.root

/-- What the start of an element is noted as. -/
def startNote (b : Builder) (name : String) : Note :=
  ⟨.trace, "open element", [("element", name), ("depth", toString b.opened.length)]⟩

/-- The notes about an event. -/
def notes (b : Builder) : Event → List Note
  | .start name => [b.startNote name]
  | _ => []

/-- Takes one event at its position. -/
def take (b : Builder) (e : Nat × Event) : Attempt Note (Nat × Fault) Builder :=
  ⟨b.notes e.2, (b.step e.2).mapError fun f => (e.1, f)⟩

/-- Takes events in order, up to the first that does not fit. -/
def takeAll (b : Builder) : List (Nat × Event) → Attempt Note (Nat × Fault) Builder
  | [] => .ok b
  | e :: es => (b.take e).bind fun b => b.takeAll es

/-- The tree that events build from the start, or the first fault. -/
def build (events : List Event) : Except Fault (Option Element) :=
  events.foldlM step empty >>= complete?

end Builder

end MasterPackage.Markup
