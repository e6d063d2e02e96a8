import MasterPackage.Markup.Element

/-!
# What queries find

The queries on an element look for a child by its name and for the text that it has.
Here their answers are told by the list of the children alone.
-/

namespace MasterPackage.Markup.Element

variable {e child : Element} {name text : String}

/-- A child is the first of a name: it has the name, and no child before it does. -/
def First (e : Element) (name : String) (child : Element) : Prop :=
  ∃ before after, e.children = before ++ child :: after ∧ child.isNamed name = true ∧
    ∀ other ∈ before, other.isNamed name = false

/-- No child has the name. -/
def Lacks (e : Element) (name : String) : Prop :=
  ∀ child ∈ e.children, child.isNamed name = false

/-- The first child of a name has a text that is not all blank, and this is the text without
the blanks around it. -/
def Says (e : Element) (name text : String) : Prop :=
  ∃ child, e.First name child ∧ (∃ c ∈ child.text.toList, Text.isBlank c = false) ∧
    Text.trimmed child.text = text

/-- There is no child of the name, or the text of the first one is all blank. -/
def Silent (e : Element) (name : String) : Prop :=
  e.Lacks name ∨ ∃ child, e.First name child ∧ ∀ c ∈ child.text.toList, Text.isBlank c = true

/-- What has one name has another exactly if the two are the same up to letter case. -/
theorem isNamed_of_isNamed (named : e.isNamed name = true) (other : String) :
    e.isNamed other = sameTag name other := by
  rw [isNamed, sameTag, Text.sameFolded_iff] at named
  simp only [isNamed, sameTag, Text.sameFolded, named]

theorem child?_eq_some_iff : e.child? name = some child ↔ e.First name child := by
  rw [child?, List.find?_eq_some_iff_append]
  constructor
  · rintro ⟨named, before, after, children, others⟩
    exact ⟨before, after, children, named, fun other hother => by simpa using others other hother⟩
  · rintro ⟨before, after, children, named, others⟩
    exact ⟨named, before, after, children, fun other hother => by simp [others other hother]⟩

theorem child?_eq_none_iff : e.child? name = none ↔ e.Lacks name := by
  simp only [child?, List.find?_eq_none, Lacks, Bool.not_eq_true]

theorem trimmedText?_eq_some_iff :
    e.trimmedText? = some text ↔
      (∃ c ∈ e.text.toList, Text.isBlank c = false) ∧ Text.trimmed e.text = text := by
  have hblank : (∃ c ∈ e.text.toList, Text.isBlank c = false) ↔ Text.trim e.text.toList ≠ [] := by
    rw [ne_eq, Text.trim_eq_nil_iff]
    simp
  rw [hblank, trimmedText?, Text.trimmed]
  split
  · next hnil => simp [hnil]
  · next hne =>
    rw [Option.some.injEq]
    exact ⟨fun same => ⟨hne, same⟩, fun found => found.2⟩

/-- An element without text that says something counts as empty. -/
theorem trimmedText?_getD (e : Element) : e.trimmedText?.getD "" = Text.trimmed e.text := by
  rw [trimmedText?, Text.trimmed]
  cases Text.trim e.text.toList with
  | nil => rfl
  | cons c cs => rfl

theorem textOf?_eq_some_iff : e.textOf? name = some text ↔ e.Says name text := by
  rw [textOf?, Option.bind_eq_some_iff]
  constructor
  · rintro ⟨child, hchild, htext⟩
    exact ⟨child, child?_eq_some_iff.1 hchild, trimmedText?_eq_some_iff.1 htext⟩
  · rintro ⟨child, hchild, htext⟩
    exact ⟨child, child?_eq_some_iff.2 hchild, trimmedText?_eq_some_iff.2 htext⟩

theorem textOf?_eq_none_iff : e.textOf? name = none ↔ e.Silent name := by
  rw [textOf?]
  cases hchild : e.child? name with
  | none =>
    have lacks := child?_eq_none_iff.1 hchild
    exact ⟨fun _ => .inl lacks, fun _ => rfl⟩
  | some child =>
    have first := child?_eq_some_iff.1 hchild
    rw [Option.bind_some, trimmedText?_eq_none_iff]
    constructor
    · exact fun blank => .inr ⟨child, first, blank⟩
    · rintro (lacks | ⟨other, hother, blank⟩)
      · rw [child?_eq_none_iff.2 lacks] at hchild
        cases hchild
      · rw [child?_eq_some_iff.2 hother] at hchild
        cases hchild
        exact blank

/-- What the first child of a name says is never empty. -/
theorem Says.ne_empty (h : e.Says name text) : text ≠ "" := by
  obtain ⟨child, -, ⟨c, hc, hblank⟩, rfl⟩ := h
  intro hempty
  have hnil : Text.trim child.text.toList = [] := by
    rw [← String.toList_ofList (l := Text.trim child.text.toList)]
    exact congrArg String.toList hempty
  rw [Text.trim_eq_nil_iff] at hnil
  rw [hnil c hc] at hblank
  cases hblank

end MasterPackage.Markup.Element
