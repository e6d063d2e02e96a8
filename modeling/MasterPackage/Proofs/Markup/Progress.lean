import MasterPackage.Proofs.Markup.RoundTrip
import MasterPackage.Proofs.Markup.Tokens

/-!
# Reading token by token

A document is read one token after the other.  Between two tokens, reading knows the
full names of the open elements and what is built so far (`Progress`), and nothing else
of the text before.  So a run over tokens can be stopped and taken up again between any
two of them (`Runs.append_iff`).

* `Document.result_parse_eq_ok_iff_runs`: a document is made when a run over all tokens
  of its text ends with no element open.
* `Runs.depth`: after a run, as many elements are open as its start tags and end tags say.
* `Runs.root`, `Runs.begun`: a root that is there stays, and where an element has started
  there is a root or an open element.
-/

namespace MasterPackage.Markup

/-- What reading knows between two tokens. -/
structure Progress where
  /-- The full names of the open elements, innermost first. -/
  names : List (List Char)
  builder : Builder

namespace Progress

/-- Reading at the front of a text. -/
def start : Progress := ⟨[], .empty⟩

/-- Reading goes through one token. -/
def Takes (p : Progress) (l : Lexeme) (q : Progress) : Prop :=
  ∃ events, Event.ofToken p.names l.token = .ok (events, q.names) ∧
    events.foldlM Builder.step p.builder = .ok q.builder

/-- Reading goes through tokens in order. -/
inductive Runs : Progress → List Lexeme → Progress → Prop
  | stop (p : Progress) : Runs p [] p
  | token {p q r : Progress} {l : Lexeme} {ls : List Lexeme} (h : p.Takes l q)
    (rest : Runs q ls r) : Runs p (l :: ls) r

variable {p q r : Progress} {l : Lexeme} {ls : List Lexeme}

theorem Runs.append_iff {a b : List Lexeme} :
    Runs p (a ++ b) r ↔ ∃ q, Runs p a q ∧ Runs q b r := by
  constructor
  · intro h
    induction a generalizing p with
    | nil => exact ⟨p, .stop p, h⟩
    | cons l a ih =>
      cases h with
      | token htakes hrest =>
        rcases ih hrest with ⟨q, ha, hb⟩
        exact ⟨q, .token htakes ha, hb⟩
  · intro h
    rcases h with ⟨q, ha, hb⟩
    induction ha with
    | stop p => exact hb
    | token htakes _ ih => exact .token htakes (ih hb)

end Progress

/-! ## Reading as a run -/

theorem Builder.foldlM_append_eq_ok_iff {b b' : Builder} {es fs : List Event} :
    (es ++ fs).foldlM step b = .ok b' ↔
      ∃ b₁, es.foldlM step b = .ok b₁ ∧ fs.foldlM step b₁ = .ok b' := by
  constructor
  · intro h
    cases hfirst : es.foldlM step b with
    | error f =>
      rw [List.foldlM_append, hfirst] at h
      cases h
    | ok b₁ =>
      rw [foldlM_append_of_ok hfirst] at h
      exact ⟨b₁, rfl, h⟩
  · intro h
    rcases h with ⟨b₁, hfirst, hrest⟩
    rw [foldlM_append_of_ok hfirst, hrest]

theorem Builder.exists_of_foldlM_cons {b b' : Builder} {e : Event} {es : List Event}
    (h : (e :: es).foldlM step b = .ok b') :
    ∃ b₁, b.step e = .ok b₁ ∧ es.foldlM step b₁ = .ok b' := by
  cases hfirst : b.step e with
  | error f =>
    rw [List.foldlM_cons, hfirst] at h
    cases h
  | ok b₁ =>
    rw [foldlM_cons_of_ok hfirst] at h
    exact ⟨b₁, rfl, h⟩

/-- A text that cannot be cut into tokens up to its end is not read up to its end. -/
theorem Reading.of_cut_error {c : Char} {r : List Char} {f : Fault} (h : Token.cut c r = .error f)
    (opened : List (List Char)) (position : Nat) :
    of opened position (c :: r) = ⟨[], .error (position, f)⟩ := by
  rw [of]
  split
  · next g hg =>
    rw [h] at hg
    cases hg
    rfl
  · next t ht =>
    rw [h] at ht
    cases ht

/-- A text is read up to its end, and its events are taken, by a run over its tokens. -/
theorem Reading.ok_iff_runs (names : List (List Char)) (position : Nat) (s : List Char)
    (b b' : Builder) :
    ((∃ stop, (of names position s).ending = .ok stop) ∧
        ((of names position s).events.map Prod.snd).foldlM Builder.step b = .ok b') ↔
      ∃ ls q, lexemes? s = some ls ∧ Progress.Runs ⟨names, b⟩ ls q ∧ q.builder = b' := by
  fun_induction lexemes? s generalizing names position b with
  | case1 =>
    rw [of_eq_nil]
    constructor
    · intro h
      rcases h with ⟨-, hrun⟩
      cases hrun
      exact ⟨[], _, rfl, .stop _, rfl⟩
    · intro h
      rcases h with ⟨ls, q, hls, hruns, rfl⟩
      cases hls
      cases hruns
      exact ⟨⟨position, rfl⟩, rfl⟩
  | case2 c r f hcut =>
    rw [of_cut_error hcut]
    constructor
    · intro h
      rcases h with ⟨⟨stop, hstop⟩, -⟩
      cases hstop
    · intro h
      rcases h with ⟨ls, q, hls, -⟩
      cases hls
  | case3 c r t hcut ih =>
    cases htoken : Event.ofToken names t.token with
    | error f =>
      rw [of_fault hcut htoken]
      constructor
      · intro h
        rcases h with ⟨⟨stop, hstop⟩, -⟩
        cases hstop
      · intro h
        rcases h with ⟨ls, q, hls, hruns, -⟩
        rcases Option.map_eq_some_iff.1 hls with ⟨more, -, rfl⟩
        cases hruns with
        | token htakes _ =>
          rcases htakes with ⟨events, hevents, -⟩
          rw [htoken] at hevents
          cases hevents
    | ok found =>
      rcases found with ⟨events, names'⟩
      rw [of_token hcut htoken]
      have hevents (rest : List (Nat × Event)) :
          ((events.map fun e => (position, e)) ++ rest).map Prod.snd =
            events ++ rest.map Prod.snd := by
        simp [Function.comp_def]
      simp only [after, hevents, Builder.foldlM_append_eq_ok_iff]
      constructor
      · intro h
        rcases h with ⟨hstop, b₁, hfirst, hrest⟩
        rcases (ih names' _ b₁).1 ⟨hstop, hrest⟩ with ⟨ls, q, hls, hruns, rfl⟩
        exact ⟨_ :: ls, q, by rw [hls]; rfl, .token ⟨events, htoken, hfirst⟩ hruns, rfl⟩
      · intro h
        rcases h with ⟨ls, q, hls, hruns, rfl⟩
        rcases Option.map_eq_some_iff.1 hls with ⟨more, hmore, rfl⟩
        cases hruns with
        | @token _ p _ _ _ htakes hrest =>
          rcases p with ⟨names₁, b₁⟩
          rcases htakes with ⟨events₁, hevents₁, hfirst⟩
          rw [htoken] at hevents₁
          cases hevents₁
          rcases (ih names₁ (position + Text.Utf8.width t.chars) b₁).2 ⟨more, q, hmore, hrest, rfl⟩
            with ⟨hstop, hbuilt⟩
          exact ⟨hstop, b₁, hfirst, hbuilt⟩

theorem Builder.complete?_eq_ok_iff {b : Builder} {root : Option Element} :
    b.complete? = .ok root ↔ b.opened = [] ∧ b.root = root := by
  rcases b with ⟨opened, found⟩
  cases opened with
  | nil => simp [complete?]
  | cons u opened => simp [complete?]

/-- Events build a tree when they can be taken in order and no element is open then. -/
theorem Builder.build_eq_ok_iff_run {events : List Event} {root : Option Element} :
    build events = .ok root ↔
      ∃ b, events.foldlM step .empty = .ok b ∧ b.opened = [] ∧ b.root = root := by
  unfold build
  cases hrun : events.foldlM step .empty with
  | error f =>
    constructor
    · intro h
      cases h
    · intro h
      rcases h with ⟨b, hb, -⟩
      cases hb
  | ok b =>
    change b.complete? = .ok root ↔ _
    rw [complete?_eq_ok_iff]
    constructor
    · intro h
      exact ⟨b, rfl, h⟩
    · intro h
      rcases h with ⟨b', hb, h⟩
      cases hb
      exact h

theorem Reading.document_eq (s : List Char) :
    document s = of [] 0 (Text.Utf8.withoutMark s) := by
  cases s with
  | nil => rfl
  | cons c r =>
    simp only [document, Text.Utf8.withoutMark]
    split <;> rfl

/-- A document is made when reading goes through all tokens of its text, and no element
is open then.  Two byte-order marks may stand in front. -/
theorem Document.result_parse_eq_ok_iff_runs {source : String} {bytes : List UInt8}
    {document : Document} :
    (parse source bytes).result = .ok document ↔
      ∃ full ls p, bytes = Text.Utf8.encode full ∧
        lexemes? (Text.Utf8.withoutMark (Text.Utf8.withoutMark full)) = some ls ∧
        Progress.start.Runs ls p ∧ p.builder.opened = [] ∧
        document = ⟨source, p.builder.root⟩ := by
  rw [result_parse_eq_ok_iff]
  simp only [Text.Utf8.text_dropMark_eq_ok_iff, Reading.result_tree_eq_ok_iff,
    Reading.document_eq, Builder.build_eq_ok_iff_run]
  constructor
  · intro h
    rcases h with ⟨s, root, ⟨full, rfl, rfl⟩, ⟨hstop, hbuilt⟩, rfl⟩
    rcases hbuilt with ⟨b, hrun, hopened, rfl⟩
    rcases (Reading.ok_iff_runs _ _ _ _ _).1 ⟨hstop, hrun⟩ with ⟨ls, p, hls, hruns, rfl⟩
    exact ⟨full, ls, p, rfl, hls, hruns, hopened, rfl⟩
  · intro h
    rcases h with ⟨full, ls, p, rfl, hls, hruns, hopened, rfl⟩
    rcases (Reading.ok_iff_runs [] 0 _ _ _).2 ⟨ls, p, hls, hruns, rfl⟩ with ⟨hstop, hrun⟩
    exact ⟨_, _, ⟨full, rfl, rfl⟩, ⟨hstop, ⟨_, hrun, hopened, rfl⟩⟩, rfl⟩

/-! ## What a run keeps -/

/-- All that one event can do to the open elements and the root. -/
theorem Builder.step_cases {b b' : Builder} {e : Event} (h : b.step e = .ok b') :
    (∃ name, e = .start name ∧ b' = ⟨.start name :: b.opened, b.root⟩) ∨
      (e = .finish ∧ ∃ u, b.opened = [u] ∧ b.root = none ∧ b' = ⟨[], some u.element⟩) ∨
      (e = .finish ∧ ∃ u parent parent' rest, b.opened = u :: parent :: rest ∧
        b' = ⟨parent' :: rest, b.root⟩) ∨
      (∃ s u u' rest, e = .text s ∧ b.opened = u :: rest ∧ b' = ⟨u' :: rest, b.root⟩) ∨
      (∃ s, e = .text s ∧ b.opened = [] ∧ b' = b) := by
  rcases b with ⟨opened, root⟩
  cases e with
  | start name => exact .inl ⟨name, rfl, (Except.ok.inj h).symm⟩
  | finish =>
    apply Or.inr
    match opened, root, h with
    | [u], none, h => exact .inl ⟨rfl, u, rfl, rfl, (Except.ok.inj h).symm⟩
    | u :: parent :: rest, _, h =>
      exact .inr (.inl ⟨rfl, u, parent, _, rest, rfl, (Except.ok.inj h).symm⟩)
  | text s =>
    apply Or.inr
    apply Or.inr
    apply Or.inr
    match opened, h with
    | u :: rest, h => exact .inl ⟨s, u, _, rest, rfl, rfl, (Except.ok.inj h).symm⟩
    | [], h =>
      refine .inr ⟨s, rfl, rfl, ?_⟩
      change (if Text.trim s.toList = [] then Except.ok ⟨[], root⟩ else _) = Except.ok b' at h
      split at h
      · exact (Except.ok.inj h).symm
      · cases h

/-- How many elements are open after an event, given how many were before it. -/
def Event.depthAfter (depth : Nat) : Event → Nat
  | .start _ => depth + 1
  | .finish => depth - 1
  | .text _ => depth

/-- How many elements are open after a token, given how many were before it. -/
def Token.depthAfter (depth : Nat) : Token → Nat
  | .start _ false => depth + 1
  | .finish _ => depth - 1
  | .text _ | .characters _ | .start _ true | .aside => depth

/-- How many elements are open after tokens, given how many were before them. -/
def depthAfter (depth : Nat) (ls : List Lexeme) : Nat :=
  ls.foldl (fun depth l => l.token.depthAfter depth) depth

theorem Event.foldl_depthAfter {names names' : List (List Char)} {t : Token} {events : List Event}
    (h : ofToken names t = .ok (events, names')) (depth : Nat) :
    events.foldl Event.depthAfter depth = t.depthAfter depth := by
  unfold ofToken at h
  split at h
  · split at h
    · cases h
      rfl
    · cases h
  · cases h
    rfl
  · cases h
    rfl
  · cases h
    rfl
  · split at h
    · cases h
    · split at h
      · cases h
        rfl
      · cases h
  · cases h
    rfl

theorem Builder.step_depth {b b' : Builder} {e : Event} (h : b.step e = .ok b') :
    b'.opened.length = e.depthAfter b.opened.length := by
  rcases step_cases h with ⟨name, rfl, rfl⟩ | ⟨rfl, u, hopened, -, rfl⟩ |
    ⟨rfl, u, parent, parent', rest, hopened, rfl⟩ | ⟨s, u, u', rest, rfl, hopened, rfl⟩ |
    ⟨s, rfl, hopened, rfl⟩
  · rfl
  · rw [hopened]; rfl
  · rw [hopened]; rfl
  · rw [hopened]; rfl
  · rfl

/-- What every event keeps is kept by events in order. -/
theorem Builder.foldlM_keeps (P : Builder → Prop) {es : List Event}
    (hstep : ∀ e ∈ es, ∀ {b b'}, step b e = .ok b' → P b → P b') {b b' : Builder}
    (h : es.foldlM step b = .ok b') (hb : P b) : P b' := by
  induction es generalizing b with
  | nil =>
    cases h
    exact hb
  | cons e es ih =>
    rcases exists_of_foldlM_cons h with ⟨b₁, hfirst, hrest⟩
    apply ih (fun e he => hstep e (List.mem_cons_of_mem _ he)) hrest
    exact hstep e List.mem_cons_self hfirst hb

theorem Builder.foldlM_depth {b b' : Builder} {es : List Event} (h : es.foldlM step b = .ok b') :
    b'.opened.length = es.foldl Event.depthAfter b.opened.length := by
  induction es generalizing b with
  | nil =>
    cases h
    rfl
  | cons e es ih =>
    rcases exists_of_foldlM_cons h with ⟨b₁, hfirst, hrest⟩
    rw [ih hrest, step_depth hfirst]
    rfl

/-- A root that is there stays. -/
theorem Builder.step_root {b b' : Builder} {e : Event} (h : b.step e = .ok b') {root : Element}
    (hroot : b.root = some root) : b'.root = some root := by
  rcases step_cases h with ⟨name, rfl, rfl⟩ | ⟨rfl, u, -, hnone, rfl⟩ |
    ⟨rfl, u, parent, parent', rest, -, rfl⟩ | ⟨s, u, u', rest, rfl, -, rfl⟩ | ⟨s, rfl, -, rfl⟩
  · exact hroot
  · rw [hroot] at hnone
    cases hnone
  · exact hroot
  · exact hroot
  · exact hroot

/-- An element has started: it is still open, or there is a root. -/
def Builder.Begun (b : Builder) : Prop := b.opened ≠ [] ∨ b.root.isSome

theorem Builder.step_begun {b b' : Builder} {e : Event} (h : b.step e = .ok b') (hb : b.Begun) :
    b'.Begun := by
  rcases step_cases h with ⟨name, rfl, rfl⟩ | ⟨rfl, u, -, -, rfl⟩ |
    ⟨rfl, u, parent, parent', rest, -, rfl⟩ | ⟨s, u, u', rest, rfl, -, rfl⟩ | ⟨s, rfl, -, rfl⟩
  · exact .inl (List.cons_ne_nil _ _)
  · exact .inr rfl
  · exact .inl (List.cons_ne_nil _ _)
  · exact .inl (List.cons_ne_nil _ _)
  · exact hb

/-- Whether a token starts an element. -/
def Token.isStart : Token → Bool
  | .start _ _ => true
  | .text _ | .characters _ | .finish _ | .aside => false

theorem Event.start_notMem {names names' : List (List Char)} {t : Token} {events : List Event}
    (h : ofToken names t = .ok (events, names')) (ht : t.isStart = false) (name : String) :
    .start name ∉ events := by
  unfold ofToken at h
  split at h
  · split at h
    · cases h
      simp
    · cases h
  · cases h
    simp
  · cases ht
  · cases ht
  · split at h
    · cases h
    · split at h
      · cases h
        simp
      · cases h
  · cases h
    simp

/-- Where nothing is built, only a start changes that. -/
theorem Builder.step_empty {b b' : Builder} {e : Event} (h : b.step e = .ok b') (hb : b = .empty)
    (he : ∀ name, e ≠ .start name) : b' = .empty := by
  subst hb
  rcases step_cases h with ⟨name, rfl, -⟩ | ⟨rfl, u, hopened, -⟩ |
    ⟨rfl, u, parent, parent', rest, hopened, -⟩ | ⟨s, u, u', rest, rfl, hopened, -⟩ |
    ⟨s, rfl, -, rfl⟩
  · exact absurd rfl (he name)
  · cases hopened
  · cases hopened
  · cases hopened
  · rfl

namespace Progress

variable {p q : Progress} {l : Lexeme} {ls : List Lexeme}

theorem Takes.depth (h : p.Takes l q) :
    q.builder.opened.length = l.token.depthAfter p.builder.opened.length := by
  rcases h with ⟨events, hevents, hrun⟩
  rw [Builder.foldlM_depth hrun, Event.foldl_depthAfter hevents]

/-- After a run, as many elements are open as the tokens say. -/
theorem Runs.depth (h : p.Runs ls q) :
    q.builder.opened.length = depthAfter p.builder.opened.length ls := by
  induction h with
  | stop p => rfl
  | token htakes _ ih =>
    rw [ih, htakes.depth]
    rfl

/-- What every event keeps is kept by a run. -/
theorem Runs.keeps (P : Builder → Prop)
    (hstep : ∀ e {b b'}, Builder.step b e = .ok b' → P b → P b') (h : p.Runs ls q)
    (hp : P p.builder) : P q.builder := by
  induction h with
  | stop p => exact hp
  | token htakes _ ih =>
    rcases htakes with ⟨events, -, hrun⟩
    exact ih (Builder.foldlM_keeps P (fun e _ => hstep e) hrun hp)

theorem Runs.root (h : p.Runs ls q) {root : Element} (hroot : p.builder.root = some root) :
    q.builder.root = some root := by
  apply Runs.keeps (fun b => b.root = some root) _ h hroot
  intro e b b' hstep hb
  exact Builder.step_root hstep hb

/-- Where an element has started, one is open or there is a root. -/
theorem Takes.begun (h : p.Takes l q) (hstart : l.token.isStart = true) : q.builder.Begun := by
  rcases l with ⟨token, chars⟩
  rcases h with ⟨events, hevents, hrun⟩
  have hfirst : ∃ name rest, events = .start name :: rest := by
    cases token with
    | start name empty =>
      cases empty <;> exact ⟨_, _, (Prod.mk.inj (Except.ok.inj hevents)).1.symm⟩
    | text _ | characters _ | finish _ | aside => cases hstart
  rcases hfirst with ⟨name, rest, rfl⟩
  rw [Builder.foldlM_cons_of_ok rfl] at hrun
  exact Builder.foldlM_keeps Builder.Begun (fun _ _ => Builder.step_begun) hrun
    (.inl (List.cons_ne_nil _ _))

theorem Runs.begun (h : p.Runs ls q) (hp : p.builder.Begun) : q.builder.Begun :=
  Runs.keeps Builder.Begun (fun _ => Builder.step_begun) h hp

/-- Before an element starts, nothing is built. -/
theorem Takes.empty (h : p.Takes l q) (hp : p.builder = .empty) (hl : l.token.isStart = false) :
    q.builder = .empty := by
  rcases h with ⟨events, hevents, hrun⟩
  apply Builder.foldlM_keeps (· = .empty) _ hrun hp
  intro e he b b' hstep hb
  exact Builder.step_empty hstep hb fun name hname =>
    Event.start_notMem hevents hl name (hname ▸ he)

theorem Runs.empty (h : p.Runs ls q) (hp : p.builder = .empty)
    (hls : ∀ l ∈ ls, l.token.isStart = false) : q.builder = .empty := by
  induction h with
  | stop p => exact hp
  | token htakes _ ih =>
    apply ih (htakes.empty hp (hls _ List.mem_cons_self))
    intro l hl
    exact hls l (List.mem_cons_of_mem _ hl)

end Progress

end MasterPackage.Markup
