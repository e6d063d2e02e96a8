import MasterPackage.Proofs.Markup.Progress

/-!
# Tokens that do not fit

A token may be a fault because of what stands before it.  Reading keeps two stacks, one of full
names and one of elements under way.  They are in step (`Progress.InStep`) behind every run over
tokens, so the tree is never told to close an element that it has not opened.

* `Progress.Runs.inStep`: the stacks stay in step.
* `Progress.Misfit`: why a token may not come where it does.
* `Progress.next_eq_error_iff`: these are the faults that a token is refused with.
-/

namespace MasterPackage.Markup

/-! ## Two stacks in step -/

/-- The local names of elements, given their full ones. -/
def localNames (names : List (List Char)) : List String :=
  names.map fun name => String.ofList (localName name)

/-- The names of the elements under way, innermost first. -/
def Builder.names (b : Builder) : List String := b.opened.map Unfinished.name

/-- The names of the elements under way behind an event, given those before it. -/
def Event.namesAfter (names : List String) : Event → List String
  | .start name => name :: names
  | .finish => names.tail
  | .text _ => names

theorem Builder.step_names {b b' : Builder} {e : Event} (h : b.step e = .ok b') :
    b'.names = e.namesAfter b.names := by
  rcases b with ⟨opened, root⟩
  cases e with
  | start name =>
    cases h
    rfl
  | finish =>
    match opened, root, h with
    | [u], none, h =>
      cases h
      rfl
    | u :: parent :: more, root, h =>
      cases h
      rfl
  | text s =>
    match opened, h with
    | u :: more, h =>
      cases h
      rfl
    | [], h =>
      change (if Text.trim s.toList = [] then Except.ok ⟨[], root⟩ else _) = Except.ok b' at h
      split at h
      · cases h
        rfl
      · cases h

theorem Builder.foldlM_names {b b' : Builder} {es : List Event} (h : es.foldlM step b = .ok b') :
    b'.names = es.foldl Event.namesAfter b.names := by
  induction es generalizing b with
  | nil =>
    cases h
    rfl
  | cons e es ih =>
    rcases exists_of_foldlM_cons h with ⟨b₁, hfirst, hrest⟩
    rw [ih hrest, step_names hfirst]
    rfl

/-- Events do to local names what their token does to full names. -/
theorem Event.foldl_namesAfter {names names' : List (List Char)} {t : Token}
    {events : List Event} (h : ofToken names t = .ok (events, names')) :
    events.foldl Event.namesAfter (localNames names) = localNames names' := by
  unfold ofToken at h
  split at h
  · split at h
    · cases h
      rfl
    · cases h
  · cases h
    rfl
  · cases h
    rfl
  · cases h
    rfl
  · split at h
    · cases h
    · split at h
      · cases h
        rfl
      · cases h
  · cases h
    rfl

namespace Progress

variable {p q : Progress} {l : Lexeme} {ls : List Lexeme} {t : Token} {f : Fault}

/-- Both stacks hold the same elements: as many, and of the same local names. -/
def InStep (p : Progress) : Prop := p.builder.names = localNames p.names

theorem inStep_start : start.InStep := rfl

theorem Takes.inStep (h : p.Takes l q) (hp : p.InStep) : q.InStep := by
  rcases h with ⟨events, hevents, hrun⟩
  have hnames := Builder.foldlM_names hrun
  rw [show p.builder.names = localNames p.names from hp, Event.foldl_namesAfter hevents] at hnames
  exact hnames

theorem Runs.inStep (h : p.Runs ls q) (hp : p.InStep) : q.InStep := by
  induction h with
  | stop p => exact hp
  | token htakes _ ih => exact ih (htakes.inStep hp)

/-- No element is under way exactly if no name is open. -/
theorem InStep.opened_eq_nil_iff (hp : p.InStep) : p.builder.opened = [] ↔ p.names = [] := by
  rw [← List.map_eq_nil_iff (f := Unfinished.name)]
  change p.builder.names = [] ↔ _
  rw [show p.builder.names = localNames p.names from hp]
  exact List.map_eq_nil_iff

/-- A name is open exactly if an element is under way. -/
theorem InStep.exists_opened (hp : p.InStep) {name : List Char} {names : List (List Char)}
    (h : p.names = name :: names) :
    ∃ u more, p.builder.opened = u :: more ∧ more.map Unfinished.name = localNames names := by
  have hboth : p.builder.opened.map Unfinished.name = localNames p.names := hp
  rw [h] at hboth
  rcases List.map_eq_cons_iff.1 hboth with ⟨u, more, hopened, -, hmore⟩
  exact ⟨u, more, hopened, hmore⟩

/-! ## A token that does not fit -/

/-- Reading goes on with a token, or tells why it does not fit. -/
def next (p : Progress) (t : Token) : Except Fault Progress :=
  match Event.ofToken p.names t with
  | .error f => .error f
  | .ok (events, names) => (events.foldlM Builder.step p.builder).map fun b => ⟨names, b⟩

theorem next_of_ok {events : List Event} {names : List (List Char)}
    (h : Event.ofToken p.names t = .ok (events, names)) :
    p.next t = (events.foldlM Builder.step p.builder).map fun b => ⟨names, b⟩ := by
  simp only [next, h]

theorem next_of_error (h : Event.ofToken p.names t = .error f) : p.next t = .error f := by
  simp only [next, h]

theorem takes_iff : p.Takes l q ↔ p.next l.token = .ok q := by
  constructor
  · intro h
    rcases h with ⟨events, hevents, hrun⟩
    rw [next_of_ok hevents, hrun]
    rfl
  · intro h
    cases hevents : Event.ofToken p.names l.token with
    | error f =>
      rw [next_of_error hevents] at h
      cases h
    | ok found =>
      rcases found with ⟨events, names⟩
      rw [next_of_ok hevents] at h
      cases hrun : events.foldlM Builder.step p.builder with
      | error f =>
        rw [hrun] at h
        cases h
      | ok b =>
        rw [hrun] at h
        cases h
        exact ⟨events, hevents, hrun⟩

/-- Why a token does not fit behind those before it. -/
inductive Misfit (p : Progress) : Token → Fault → Prop
  | badReference {raw : List Char} {fault : Reference.Fault}
    (h : Reference.expand raw = .error fault) : Misfit p (.text raw) (.reference fault)
  | textOutside {raw s : List Char} (h : Reference.expand raw = .ok s) (hs : Text.trim s ≠ [])
    (outside : p.names = []) : Misfit p (.text raw) .textOutsideRoot
  | charactersOutside {s : List Char} (hs : Text.trim s ≠ []) (outside : p.names = []) :
    Misfit p (.characters s) .textOutsideRoot
  | strayEnd {found : List Char} (outside : p.names = []) :
    Misfit p (.finish found) (.strayEnd (String.ofList found))
  | wrongEnd {expected found : List Char} {names : List (List Char)}
    (inside : p.names = expected :: names) (h : expected ≠ found) :
    Misfit p (.finish found) (.wrongEnd (String.ofList expected) (String.ofList found))
  /-- The end tag of a second root. -/
  | secondEnd {name : List Char} {root : Element} (outermost : p.names = [name])
    (h : p.builder.root = some root) : Misfit p (.finish name) .secondRoot
  /-- The only tag of a second root. -/
  | secondTag {name : List Char} {root : Element} (outside : p.names = [])
    (h : p.builder.root = some root) : Misfit p (.start name true) .secondRoot

end Progress

theorem Builder.text_eq_error_iff {b : Builder} {s : String} {f : Fault} :
    b.text s = .error f ↔
      b.opened = [] ∧ Text.trim s.toList ≠ [] ∧ f = .textOutsideRoot := by
  rcases b with ⟨opened, root⟩
  cases opened with
  | cons u more =>
    constructor
    · intro h
      cases h
    · rintro ⟨hopened, -⟩
      cases hopened
  | nil =>
    change (if Text.trim s.toList = [] then .ok (Builder.mk [] root) else .error .textOutsideRoot) =
      Except.error f ↔ _
    split
    · next hblank => simp [hblank]
    · next hsome => simp [hsome, eq_comm]

theorem Builder.finish_eq_error_iff {b : Builder} (h : b.opened ≠ []) {f : Fault} :
    b.finish = .error f ↔
      ∃ u root, b.opened = [u] ∧ b.root = some root ∧ f = .secondRoot := by
  rcases b with ⟨opened, root⟩
  match opened, root, h with
  | [], _, h => exact absurd rfl h
  | [u], none, _ =>
    constructor
    · intro herror
      cases herror
    · rintro ⟨_, _, -, hroot, -⟩
      cases hroot
  | [u], some e, _ =>
    constructor
    · intro herror
      cases herror
      exact ⟨u, e, rfl, rfl, rfl⟩
    · rintro ⟨_, _, -, -, rfl⟩
      rfl
  | u :: parent :: more, _, _ =>
    constructor
    · intro herror
      cases herror
    · rintro ⟨_, _, hopened, -⟩
      cases hopened

/-- One event is taken as by itself. -/
theorem Builder.foldlM_single (b : Builder) (e : Event) : [e].foldlM step b = b.step e := by
  rw [List.foldlM_cons]
  cases b.step e <;> rfl

namespace Progress

variable {p q : Progress} {t : Token} {f : Fault} {names : List (List Char)} {e : Event}

/-- A token of one event fits if the tree takes the event. -/
theorem next_single (h : Event.ofToken p.names t = .ok ([e], names)) :
    p.next t = .error f ↔ p.builder.step e = .error f := by
  rw [next_of_ok h, Attempt.map_eq_error_iff, Builder.foldlM_single]

theorem ofToken_text {raw s : List Char} (h : Reference.expand raw = .ok s) :
    Event.ofToken p.names (.text raw) = .ok ([.text (String.ofList s)], p.names) := by
  simp only [Event.ofToken, h]

theorem ofToken_characters (s : List Char) :
    Event.ofToken p.names (.characters s) = .ok ([.text (String.ofList s)], p.names) := rfl

/-- A token that stands for text fits inside an element, or if the text is blank. -/
theorem next_text {s : List Char}
    (h : Event.ofToken p.names t = .ok ([.text (String.ofList s)], names)) :
    p.next t = .error f ↔
      p.builder.opened = [] ∧ Text.trim s ≠ [] ∧ f = .textOutsideRoot := by
  rw [next_single h]
  change p.builder.text _ = _ ↔ _
  rw [Builder.text_eq_error_iff, String.toList_ofList]

/-- A tag that starts and finishes an element fits unless the element is a second root. -/
theorem next_empty (name : List Char) :
    p.next (.start name true) = .error f ↔
      p.builder.opened = [] ∧ (∃ root, p.builder.root = some root) ∧ f = .secondRoot := by
  have htoken : Event.ofToken p.names (.start name true) =
      .ok ([.start (String.ofList (localName name)), .finish], p.names) := rfl
  rw [next_of_ok htoken, Attempt.map_eq_error_iff, Builder.foldlM_cons_of_ok rfl,
    Builder.foldlM_single]
  change Builder.finish _ = _ ↔ _
  rw [Builder.finish_eq_error_iff (List.cons_ne_nil _ _)]
  constructor
  · rintro ⟨u, root, hopened, hroot, hf⟩
    exact ⟨(List.cons.inj hopened).2, ⟨root, hroot⟩, hf⟩
  · rintro ⟨hopened, ⟨root, hroot⟩, hf⟩
    exact ⟨_, root, congrArg _ hopened, hroot, hf⟩

/-- An end tag that repeats the innermost name fits unless it finishes a second root. -/
theorem next_finish (hp : p.InStep) {name : List Char} (h : p.names = name :: names) :
    p.next (.finish name) = .error f ↔
      names = [] ∧ (∃ root, p.builder.root = some root) ∧ f = .secondRoot := by
  have htoken : Event.ofToken p.names (.finish name) = .ok ([.finish], names) := by
    rw [h]
    exact if_pos rfl
  rcases hp.exists_opened h with ⟨u, more, hopened, hmore⟩
  have hnil : more = [] ↔ names = [] := by
    rw [← List.map_eq_nil_iff (f := Unfinished.name), hmore]
    exact List.map_eq_nil_iff
  rw [next_single htoken]
  change p.builder.finish = _ ↔ _
  rw [Builder.finish_eq_error_iff (hopened ▸ List.cons_ne_nil _ _), hopened]
  constructor
  · rintro ⟨u', root, hone, hroot, hf⟩
    exact ⟨hnil.1 (List.cons.inj hone).2, ⟨root, hroot⟩, hf⟩
  · rintro ⟨hnames, ⟨root, hroot⟩, hf⟩
    exact ⟨u, root, by rw [hnil.2 hnames], hroot, hf⟩

/-- Why a token does not fit, told from what is open and whether there is a root. -/
theorem next_eq_error_iff (hp : p.InStep) : p.next t = .error f ↔ p.Misfit t f := by
  have houtside := hp.opened_eq_nil_iff
  constructor
  · intro h
    cases t with
    | text raw =>
      cases hraw : Reference.expand raw with
      | error fault =>
        rw [next_of_error (f := .reference fault) (by simp only [Event.ofToken, hraw])] at h
        cases h
        exact .badReference hraw
      | ok s =>
        rcases (next_text (ofToken_text hraw)).1 h with
          ⟨hopened, hs, rfl⟩
        exact .textOutside hraw hs (houtside.1 hopened)
    | characters s =>
      rcases (next_text (ofToken_characters s)).1 h with ⟨hopened, hs, rfl⟩
      exact .charactersOutside hs (houtside.1 hopened)
    | start name empty =>
      cases empty with
      | true =>
        rcases (next_empty name).1 h with ⟨hopened, ⟨root, hroot⟩, rfl⟩
        exact .secondTag (houtside.1 hopened) hroot
      | false =>
        rw [next_single (e := .start (String.ofList (localName name))) rfl] at h
        cases h
    | finish found =>
      cases hnames : p.names with
      | nil =>
        rw [next_of_error (f := .strayEnd (String.ofList found)) (by rw [hnames]; rfl)] at h
        cases h
        exact .strayEnd hnames
      | cons expected names =>
        by_cases hfound : expected = found
        · subst hfound
          rcases (next_finish hp hnames).1 h with ⟨rfl, ⟨root, hroot⟩, rfl⟩
          exact .secondEnd hnames hroot
        · rw [next_of_error (by rw [hnames]; exact if_neg hfound)] at h
          cases h
          exact .wrongEnd hnames hfound
    | aside =>
      have htoken : Event.ofToken p.names .aside = .ok ([], p.names) := rfl
      rw [next_of_ok htoken] at h
      cases h
  · intro h
    cases h with
    | badReference hraw => exact next_of_error (by simp only [Event.ofToken, hraw])
    | @textOutside raw s hraw hs outside =>
      exact (next_text (ofToken_text hraw)).2 ⟨houtside.2 outside, hs, rfl⟩
    | @charactersOutside s hs outside =>
      exact (next_text (ofToken_characters s)).2 ⟨houtside.2 outside, hs, rfl⟩
    | strayEnd outside => exact next_of_error (by rw [outside]; rfl)
    | wrongEnd inside hne => exact next_of_error (by rw [inside]; exact if_neg hne)
    | secondEnd outermost hroot => exact (next_finish hp outermost).2 ⟨rfl, ⟨_, hroot⟩, rfl⟩
    | secondTag outside hroot =>
      exact (next_empty _).2 ⟨houtside.2 outside, ⟨_, hroot⟩, rfl⟩

end Progress

end MasterPackage.Markup
