import MasterPackage.Markup.Document

/-!
# Properly nested events

A tree of elements is flattened into events: an element starts, what stands inside it
follows, and it finishes.  This module shows that the events which build a document are
exactly those of at most one tree with blank texts around it, and that the tree they
build is that one.

Towards completeness, `Forest.foldlM_events` runs the builder over what stands inside an
element.  Towards soundness, `Builder.Accounts` says which events a builder has taken;
one step keeps it (`Builder.Accounts.step`), hence a run does (`Builder.Accounts.run`).
-/

namespace MasterPackage.Markup

/-! ## Trees and their events -/

/-- What stands inside an element, in order: texts, and elements with what stands inside
them. -/
inductive Forest where
  | nil
  | text (s : String) (rest : Forest)
  | element (name : String) (inside rest : Forest)

namespace Forest

/-- The events of a forest, in order. -/
def events : Forest → List Event
  | nil => []
  | text s rest => .text s :: rest.events
  | element name inside rest => .start name :: (inside.events ++ .finish :: rest.events)

/-- The texts that stand in a forest itself, one after the other. -/
def ownText : Forest → String
  | nil => ""
  | text s rest => s ++ rest.ownText
  | element _ _ rest => rest.ownText

/-- The elements of a forest, in order. -/
def elements : Forest → List Element
  | nil => []
  | text _ rest => rest.elements
  | element name inside rest => ⟨name, inside.ownText, inside.elements⟩ :: rest.elements

/-- One forest behind the other. -/
def append : Forest → Forest → Forest
  | nil, g => g
  | text s rest, g => text s (rest.append g)
  | element name inside rest, g => element name inside (rest.append g)

@[simp] theorem events_append (f g : Forest) : (f.append g).events = f.events ++ g.events := by
  induction f with
  | nil => rfl
  | text s rest ih => simp [append, events, ih]
  | element name inside rest _ ih => simp [append, events, ih]

@[simp] theorem ownText_append (f g : Forest) : (f.append g).ownText = f.ownText ++ g.ownText := by
  induction f with
  | nil => simp [append, ownText]
  | text s rest ih => simp [append, ownText, ih, String.append_assoc]
  | element name inside rest _ ih => simp [append, ownText, ih]

@[simp] theorem elements_append (f g : Forest) :
    (f.append g).elements = f.elements ++ g.elements := by
  induction f with
  | nil => rfl
  | text s rest ih => simp [append, elements, ih]
  | element name inside rest _ ih => simp [append, elements, ih]

end Forest

/-- An element with what stands inside it. -/
structure Tree where
  name : String
  inside : Forest

namespace Tree

/-- The events of a tree. -/
def events (t : Tree) : List Event := .start t.name :: (t.inside.events ++ [.finish])

/-- The element that a tree stands for: its name, its own texts put together, and its
children in order. -/
def element (t : Tree) : Element := ⟨t.name, t.inside.ownText, t.inside.elements⟩

end Tree

/-- At most one tree, with texts before and after it. -/
structure Layout where
  before : List String
  tree : Option Tree
  after : List String

namespace Layout

/-- The events of texts alone. -/
def texts (ss : List String) : List Event := ss.map .text

/-- The events of a layout. -/
def events (l : Layout) : List Event :=
  texts l.before ++ (l.tree.elim [] Tree.events ++ texts l.after)

/-- Whether all texts around the tree are blank. -/
def IsBlank (l : Layout) : Prop := ∀ s ∈ l.before ++ l.after, ∀ c ∈ s.toList, Text.isBlank c = true

/-- The root of the document that is laid out. -/
def root (l : Layout) : Option Element := l.tree.map Tree.element

end Layout

/-! ## Building a tree from its events -/

/-- An element under way, with a forest behind what stands in it so far. -/
def Unfinished.extend (u : Unfinished) (f : Forest) : Unfinished :=
  ⟨u.name, u.text ++ f.ownText, f.elements.reverse ++ u.childrenRev⟩

theorem Unfinished.extend_extend (u : Unfinished) (f g : Forest) :
    (u.extend f).extend g = u.extend (f.append g) := by
  simp [extend, String.append_assoc]

theorem Unfinished.extend_nil (u : Unfinished) : u.extend .nil = u := by
  simp [extend, Forest.ownText, Forest.elements]

/-- An element that started and was filled is the tree of its name and its filling. -/
theorem Unfinished.element_start_extend (name : String) (f : Forest) :
    ((start name).extend f).element = Tree.element ⟨name, f⟩ := by
  simp [start, extend, element, Tree.element]

theorem Builder.step_start (name : String) (opened : List Unfinished) (root : Option Element) :
    Builder.step ⟨opened, root⟩ (.start name) = .ok ⟨.start name :: opened, root⟩ := rfl

theorem Builder.foldlM_cons_of_ok {b b' : Builder} {e : Event} (h : b.step e = .ok b')
    (es : List Event) : (e :: es).foldlM step b = es.foldlM step b' := by
  rw [List.foldlM_cons, h]
  rfl

theorem Builder.foldlM_append_of_ok {b b' : Builder} {es : List Event}
    (h : es.foldlM step b = .ok b') (fs : List Event) :
    (es ++ fs).foldlM step b = fs.foldlM step b' := by
  rw [List.foldlM_append, h]
  rfl

/-- The events of a forest fill the innermost element, and leave the others alone. -/
theorem Forest.foldlM_events (f : Forest) (u : Unfinished) (opened : List Unfinished)
    (root : Option Element) :
    f.events.foldlM Builder.step ⟨u :: opened, root⟩ = .ok ⟨u.extend f :: opened, root⟩ := by
  induction f generalizing u opened with
  | nil =>
    rw [Unfinished.extend_nil]
    rfl
  | text s rest ih =>
    have taken : Builder.step ⟨u :: opened, root⟩ (.text s) =
        .ok ⟨u.extend (.text s .nil) :: opened, root⟩ := by
      simp [Builder.step, Builder.text, Unfinished.extend, ownText, elements]
    rw [events, Builder.foldlM_cons_of_ok taken, ih, Unfinished.extend_extend]
    rfl
  | element name inside rest ihInside ihRest =>
    have finished :
        Builder.step ⟨(Unfinished.start name).extend inside :: u :: opened, root⟩ .finish =
          .ok ⟨u.extend (.element name inside .nil) :: opened, root⟩ := by
      simp only [Builder.step, Builder.finish, Unfinished.element_start_extend]
      simp [Unfinished.extend, ownText, elements, Tree.element]
    rw [events, Builder.foldlM_cons_of_ok (Builder.step_start name _ root)]
    rw [Builder.foldlM_append_of_ok (ihInside (.start name) (u :: opened))]
    rw [Builder.foldlM_cons_of_ok finished, ihRest, Unfinished.extend_extend]
    rfl

/-- The events of a tree become the root, if there is none yet. -/
theorem Tree.foldlM_events (t : Tree) :
    t.events.foldlM Builder.step ⟨[], none⟩ = .ok ⟨[], some t.element⟩ := by
  have finished :
      Builder.step ⟨[(Unfinished.start t.name).extend t.inside], none⟩ .finish =
        .ok ⟨[], some t.element⟩ := by
    simp only [Builder.step, Builder.finish, Unfinished.element_start_extend]
  rw [events, Builder.foldlM_cons_of_ok (Builder.step_start t.name [] none)]
  rw [Builder.foldlM_append_of_ok (t.inside.foldlM_events (.start t.name) [] none)]
  exact Builder.foldlM_cons_of_ok finished []

/-- Blank texts outside the root change nothing. -/
theorem Layout.foldlM_texts {ss : List String}
    (blank : ∀ s ∈ ss, ∀ c ∈ s.toList, Text.isBlank c = true) (root : Option Element) :
    (texts ss).foldlM Builder.step ⟨[], root⟩ = .ok ⟨[], root⟩ := by
  induction ss with
  | nil => rfl
  | cons s ss ih =>
    have hs : Text.trim s.toList = [] := Text.trim_eq_nil_iff.2 (blank s (by simp))
    have taken : Builder.step ⟨[], root⟩ (.text s) = .ok ⟨[], root⟩ := by
      simp only [Builder.step, Builder.text, if_pos hs]
    exact (Builder.foldlM_cons_of_ok taken _).trans (ih fun r hr => blank r (by simp [hr]))

/-- The events of a layout build the element that its tree stands for. -/
theorem Layout.foldlM_events {l : Layout} (blank : l.IsBlank) :
    l.events.foldlM Builder.step Builder.empty = .ok ⟨[], l.root⟩ := by
  have before := foldlM_texts (fun s hs => blank s (List.mem_append_left l.after hs))
  have after := foldlM_texts (fun s hs => blank s (List.mem_append_right l.before hs))
  rw [events, root, Builder.empty, Builder.foldlM_append_of_ok (before none)]
  cases l.tree with
  | none => exact after none
  | some t =>
    change (t.events ++ texts l.after).foldlM Builder.step ⟨[], none⟩ = _
    rw [Builder.foldlM_append_of_ok t.foldlM_events]
    exact after (some t.element)

/-! ## The events behind a builder -/

/-- An element under way, with what stands in it so far. -/
structure Frame where
  name : String
  inside : Forest

namespace Frame

/-- The events of elements under way, the innermost of which comes first. -/
def events : List Frame → List Event
  | [] => []
  | f :: fs => events fs ++ .start f.name :: f.inside.events

/-- An element under way as the builder keeps it. -/
def unfinished (f : Frame) : Unfinished := (Unfinished.start f.name).extend f.inside

end Frame

/-- The builder has taken the events: a layout with blank texts, then elements under
way. -/
def Builder.Accounts (es : List Event) (b : Builder) : Prop :=
  ∃ (l : Layout) (fs : List Frame), l.IsBlank ∧ es = l.events ++ Frame.events fs ∧
    b = ⟨fs.map Frame.unfinished, l.root⟩

theorem Layout.IsBlank.snoc {l : Layout} (blank : l.IsBlank) {s : String}
    (hs : ∀ c ∈ s.toList, Text.isBlank c = true) :
    Layout.IsBlank { l with after := l.after ++ [s] } := by
  intro r hr
  rw [← List.append_assoc, List.mem_append, List.mem_singleton] at hr
  rcases hr with hr | rfl
  · exact blank r hr
  · exact hs

/-- Blank texts with no tree among them may all stand before a tree to come. -/
theorem Layout.IsBlank.enclose {l : Layout} (blank : l.IsBlank) (t : Tree) :
    Layout.IsBlank ⟨l.before ++ l.after, some t, []⟩ := by
  intro r hr
  exact blank r (by simpa using hr)

namespace Builder

theorem Accounts.start {es : List Event} {b : Builder} (h : b.Accounts es) (name : String) :
    (b.start name).Accounts (es ++ [.start name]) := by
  obtain ⟨l, fs, blank, rfl, rfl⟩ := h
  refine ⟨l, ⟨name, .nil⟩ :: fs, blank, by simp [Frame.events, Forest.events], ?_⟩
  simp [Builder.start, Frame.unfinished, Unfinished.extend_nil]

theorem Accounts.text {es : List Event} {b b' : Builder} (h : b.Accounts es) {s : String}
    (taken : b.text s = .ok b') : b'.Accounts (es ++ [.text s]) := by
  obtain ⟨l, fs, blank, rfl, rfl⟩ := h
  cases fs with
  | nil =>
    simp only [Builder.text, List.map_nil] at taken
    split at taken
    · next hs =>
      cases taken
      refine ⟨_, [], blank.snoc (Text.trim_eq_nil_iff.1 hs), ?_, rfl⟩
      simp [Layout.events, Layout.texts, Frame.events]
    · cases taken
  | cons f fs =>
    cases taken
    refine ⟨l, ⟨f.name, f.inside.append (.text s .nil)⟩ :: fs, blank, ?_, ?_⟩
    · simp [Frame.events, Forest.events]
    · simp [Frame.unfinished, Unfinished.extend, Forest.ownText, Forest.elements,
        String.append_assoc]

/-- The innermost element becomes a child of the one around it, or else the root. -/
theorem Accounts.finish {es : List Event} {b b' : Builder} (h : b.Accounts es)
    (taken : b.finish = .ok b') : b'.Accounts (es ++ [.finish]) := by
  obtain ⟨l, fs, blank, rfl, rfl⟩ := h
  match fs with
  | [] => cases taken
  | [f] =>
    obtain ⟨before, tree, after⟩ := l
    cases tree with
    | some t => cases taken
    | none =>
      cases taken
      refine ⟨_, [], blank.enclose ⟨f.name, f.inside⟩, ?_, ?_⟩
      · simp [Layout.events, Layout.texts, Frame.events, Tree.events]
      · rw [Frame.unfinished, Unfinished.element_start_extend]
        rfl
  | f :: g :: fs =>
    cases taken
    refine ⟨l, ⟨g.name, g.inside.append (.element f.name f.inside .nil)⟩ :: fs, blank, ?_, ?_⟩
    · simp [Frame.events, Forest.events]
    · simp only [List.map_cons, Frame.unfinished, Unfinished.element_start_extend]
      simp [Unfinished.extend, Forest.ownText, Forest.elements, Tree.element]

/-- One step keeps the account. -/
theorem Accounts.step {es : List Event} {b b' : Builder} (h : b.Accounts es) {e : Event}
    (taken : b.step e = .ok b') : b'.Accounts (es ++ [e]) := by
  cases e with
  | start name =>
    cases taken
    exact h.start name
  | text s => exact h.text taken
  | finish => exact h.finish taken

/-- A run keeps the account. -/
theorem Accounts.run {es : List Event} {b b' : Builder} (h : b.Accounts es) {more : List Event}
    (taken : more.foldlM Builder.step b = .ok b') : b'.Accounts (es ++ more) := by
  induction more generalizing es b with
  | nil =>
    cases taken
    rwa [List.append_nil]
  | cons e more ih =>
    rw [List.foldlM_cons] at taken
    cases hstep : b.step e with
    | error f =>
      rw [hstep] at taken
      cases taken
    | ok b₁ =>
      rw [hstep] at taken
      have := ih (h.step hstep) taken
      rwa [List.append_assoc] at this

theorem accounts_empty : empty.Accounts [] :=
  ⟨⟨[], none, []⟩, [], by simp [Layout.IsBlank], rfl, rfl⟩

/-- The events from which a tree can be built are those of a layout with blank texts. -/
theorem build_eq_ok_iff {events : List Event} {root : Option Element} :
    build events = .ok root ↔ ∃ l : Layout, l.IsBlank ∧ events = l.events ∧ root = l.root := by
  constructor
  · intro h
    cases hrun : events.foldlM Builder.step empty with
    | error f =>
      rw [build, hrun] at h
      cases h
    | ok b =>
      obtain ⟨l, fs, blank, hevents, rfl⟩ := accounts_empty.run hrun
      rw [build, hrun] at h
      cases fs with
      | cons f fs => cases h
      | nil =>
        cases h
        exact ⟨l, blank, by simpa [Frame.events] using hevents, rfl⟩
  · intro h
    rcases h with ⟨l, blank, rfl, rfl⟩
    rw [build, Layout.foldlM_events blank]
    rfl

/-- Positions and notes aside, a builder takes events as it takes them one by one. -/
theorem result_takeAll_eq_ok_iff {b b' : Builder} {events : List (Nat × Event)} :
    (b.takeAll events).result = .ok b' ↔ (events.map Prod.snd).foldlM step b = .ok b' := by
  induction events generalizing b with
  | nil =>
    rw [takeAll, List.map_nil, List.foldlM_nil]
    simp only [Attempt.ok, pure, Except.pure, Except.ok.injEq]
  | cons e events ih =>
    rw [takeAll, Attempt.result_bind_eq_ok_iff, List.map_cons, List.foldlM_cons]
    cases hstep : b.step e.2 with
    | error f => simp [take, hstep, Attempt.mapError_error, bind, Except.bind]
    | ok b₁ =>
      simp only [take, hstep, Attempt.mapError_ok, Except.ok.injEq, exists_eq_left', ih]
      rfl

end Builder

/-- A reading makes a tree when it comes to an end and its events build that tree. -/
theorem Reading.result_tree_eq_ok_iff {r : Reading} {root : Option Element} :
    r.tree.result = .ok root ↔
      (∃ stop, r.ending = .ok stop) ∧ Builder.build (r.events.map Prod.snd) = .ok root := by
  change (Attempt.bind (Builder.empty.takeAll r.events) fun b =>
    (Attempt.ofExcept r.ending).bind fun stop =>
      Attempt.ofExcept (b.complete?.mapError fun f => (stop, f))).result = _ ↔ _
  simp only [Attempt.result_bind_eq_ok_iff, Builder.result_takeAll_eq_ok_iff]
  constructor
  · intro h
    rcases h with ⟨b, hrun, stop, hstop, hcomplete⟩
    refine ⟨⟨stop, hstop⟩, ?_⟩
    rw [Builder.build, hrun]
    change b.complete? = .ok root
    cases hb : b.complete? with
    | error f => simp [Attempt.ofExcept, hb, Attempt.mapError_error] at hcomplete
    | ok found => simpa [Attempt.ofExcept, hb, Attempt.mapError_ok] using hcomplete
  · intro h
    rcases h with ⟨⟨stop, hstop⟩, hbuild⟩
    cases hrun : (r.events.map Prod.snd).foldlM Builder.step Builder.empty with
    | error f =>
      rw [Builder.build, hrun] at hbuild
      cases hbuild
    | ok b =>
      rw [Builder.build, hrun] at hbuild
      have hcomplete : b.complete? = .ok root := hbuild
      exact ⟨b, rfl, stop, hstop, by simp [Attempt.ofExcept, hcomplete, Attempt.mapError_ok]⟩

/-- The calls that make a tree, whatever their positions, are exactly the events of at
most one properly nested tree with blank texts around it; and the root they make is the
element that this tree stands for, or none where there is no tree. -/
theorem tree_eq_ok_iff_nested (events : List (Nat × Event)) (stop : Nat) (root : Option Element) :
    (Reading.tree ⟨events, .ok stop⟩).result = .ok root ↔
      ∃ l : Layout, l.IsBlank ∧ events.map Prod.snd = l.events ∧ root = l.root := by
  rw [Reading.result_tree_eq_ok_iff, ← Builder.build_eq_ok_iff]
  exact and_iff_right ⟨stop, rfl⟩

end MasterPackage.Markup
