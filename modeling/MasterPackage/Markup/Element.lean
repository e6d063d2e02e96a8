import MasterPackage.Text.Blank
import MasterPackage.Text.Case

/-!
# Elements

A document is a tree of elements.  An element has the local part of its name, its
own text with nothing of its children's, and its children in document order.  Names
are compared up to the case of ASCII letters, and of several children of one name
the first counts.
-/

namespace MasterPackage.Markup

/-- An element: its local name, its own text, its children. -/
structure Element where
  name : String
  text : String
  children : List Element

/-- Whether a tag is the expected one. -/
def sameTag (tag expected : String) : Bool := Text.sameFolded tag.toList expected.toList

namespace Element

/-- An element without text or children. -/
def empty (name : String) : Element := ⟨name, "", []⟩

/-- The text of an element without blanks around it, if anything is left of it. -/
def trimmedText? (e : Element) : Option String :=
  match Text.trim e.text.toList with
  | [] => none
  | cs => some (String.ofList cs)

/-- Whether an element has the given name. -/
def isNamed (e : Element) (name : String) : Bool := sameTag e.name name

/-- The first child of the given name. -/
def child? (e : Element) (name : String) : Option Element := e.children.find? (·.isNamed name)

/-- The children of the given name, in order. -/
def childrenNamed (e : Element) (name : String) : List Element :=
  e.children.filter (·.isNamed name)

/-- The trimmed text of the first child of the given name. -/
def textOf? (e : Element) (name : String) : Option String := (e.child? name).bind trimmedText?

/-- The element at the end of a path of names, or the first name not found. -/
def descend (e : Element) : List String → Except String Element
  | [] => .ok e
  | name :: path =>
    match e.child? name with
    | some child => child.descend path
    | none => .error name

mutual

/-- An element and all below it in document order, each with its depth. -/
def walk (depth : Nat) : Element → List (Nat × Element)
  | e@⟨_, _, children⟩ => (depth, e) :: walkAll (depth + 1) children

/-- The elements of a list and all below them. -/
def walkAll (depth : Nat) : List Element → List (Nat × Element)
  | [] => []
  | e :: es => walk depth e ++ walkAll depth es

end

theorem child?_eq_head? (e : Element) (name : String) :
    e.child? name = (e.childrenNamed name).head? := by
  simp [child?, childrenNamed]

theorem isNamed_of_sameFolded {e f : Element} {name : String}
    (h : Text.sameFolded e.name.toList f.name.toList = true) : e.isNamed name = f.isNamed name := by
  simp only [isNamed, sameTag, Text.sameFolded] at h ⊢
  rw [eq_of_beq h]

theorem trimmedText?_eq_none_iff {e : Element} :
    e.trimmedText? = none ↔ ∀ c ∈ e.text.toList, Text.isBlank c = true := by
  rw [← Text.trim_eq_nil_iff, trimmedText?]
  split <;> simp_all

theorem isNamed_self (e : Element) : e.isNamed e.name = true := Text.sameFolded_refl _

/-- The first child is found by its name. -/
theorem child?_first {e : Element} (child : Element) {others : List Element}
    (h : e.children = child :: others) : e.child? child.name = some child := by
  rw [child?, h]
  exact List.find?_cons_of_pos (isNamed_self child)

/-- Text that is not blank is found without the blanks around it. -/
theorem trimmedText?_mk {text : String} (h : Text.trim text.toList ≠ []) (name : String)
    (children : List Element) :
    trimmedText? ⟨name, text, children⟩ = some (Text.trimmed text) := by
  rw [trimmedText?]
  split
  · next hnil => exact absurd hnil h
  · rfl

end Element

/-- A document: where it came from, for messages, and its root element, if it has one. -/
structure Document where
  source : String
  root : Option Element

end MasterPackage.Markup
