import MasterPackage.Transport.Load

/-!
# Journals of loads

The lines of a journal that say what becomes of streams are its moves: a stream is asked
for, is there, is closed.  Reading a stream makes no move, so the moves of a load are those
of coming by its stream and of letting go of it.
-/

namespace MasterPackage.Transport

namespace Entry

/-- Whether a line says what becomes of a stream. -/
def isMove : Entry → Bool
  | opening _ _ => true
  | opened _ => true
  | closing _ => true
  | _ => false

/-- The lines of a journal that say what becomes of streams, in order. -/
def moves (journal : List Entry) : List Entry := journal.filter isMove

theorem moves_append (a b : List Entry) : moves (a ++ b) = moves a ++ moves b :=
  List.filter_append a b

theorem moves_eq_nil {journal : List Entry} (h : ∀ e ∈ journal, e.isMove = false) :
    moves journal = [] := by
  rw [moves, List.filter_eq_nil_iff]
  intro e he
  simp [h e he]

theorem moves_notes (notes : List Note) : moves (notes.map .note) = [] := by
  apply moves_eq_nil
  intro e he
  obtain ⟨n, -, rfl⟩ := List.mem_map.1 he
  rfl

theorem isMove_of_isIncidental {e : Entry} (h : e.isIncidental = true) : e.isMove = false := by
  cases e with
  | note n => rfl
  | poll stop => rfl
  | opening url options => cases h
  | opened url => cases h
  | closing url => cases h
  | read brought => cases h
  | reservation held requested => cases h

theorem openings_append (a b : List Entry) : openings (a ++ b) = openings a ++ openings b :=
  List.filterMap_append

/-- The openings of a journal are found among its moves. -/
theorem openings_moves (journal : List Entry) : openings (moves journal) = openings journal := by
  induction journal with
  | nil => rfl
  | cons e journal ih =>
    cases e with
    | opening url options => exact congrArg ((url, options) :: ·) ih
    | opened url => exact ih
    | closing url => exact ih
    | note n => exact ih
    | poll stop => exact ih
    | read brought => exact ih
    | reservation held requested => exact ih

/-- So are the closings. -/
theorem closings_moves (journal : List Entry) : closings (moves journal) = closings journal := by
  induction journal with
  | nil => rfl
  | cons e journal ih =>
    cases e with
    | closing url => exact congrArg (· + 1) ih
    | opening url options => exact ih
    | opened url => exact ih
    | note n => exact ih
    | poll stop => exact ih
    | read brought => exact ih
    | reservation held requested => exact ih

/-- Whoever goes by these moves has one stream at a time, and closes each that was there,
once, before asking for another. -/
inductive InTurns : List Entry → Prop
  | done : InTurns []
  | opening {url : String} {options : Options} {later : List Entry} :
    InTurns later → InTurns (.opening url options :: later)
  | stream {url : String} {later : List Entry} :
    InTurns later → InTurns (.opened url :: .closing url :: later)

theorem InTurns.append {a b : List Entry} (ha : InTurns a) (hb : InTurns b) :
    InTurns (a ++ b) := by
  induction ha with
  | done => exact hb
  | opening _ ih => exact .opening ih
  | stream _ ih => exact .stream ih

end Entry

namespace Action

variable {ω ε ζ α β : Type}

/-- An action leaves the world alone and enters nothing but notes. -/
def OnlyNotes (x : Action ω ε α) : Prop :=
  ∀ w, (x w).world = w ∧ ∃ notes : List Note, (x w).attempt.record = notes.map .note

theorem onlyNotes_note (n : Note) : OnlyNotes (note n : Action ω ε Unit) := fun _ => ⟨rfl, [n], rfl⟩

theorem onlyNotes_ofNoted (x : Attempt Note ε α) : OnlyNotes (ofNoted x : Action ω ε α) :=
  fun _ => ⟨rfl, x.record, rfl⟩

theorem onlyNotes_pure (a : α) : OnlyNotes (pure a : Action ω ε α) := fun _ => ⟨rfl, [], rfl⟩

theorem OnlyNotes.bind {x : Action ω ε α} {f : α → Action ω ε β} (hx : OnlyNotes x)
    (hf : ∀ a, OnlyNotes (f a)) : OnlyNotes (x.bind f) := by
  intro w
  obtain ⟨world, notes, record⟩ := hx w
  cases h : (x w).attempt.result with
  | error e =>
    rw [bind_error h]
    exact ⟨world, notes, record⟩
  | ok a =>
    obtain ⟨world', more, record'⟩ := hf a (x w).world
    rw [bind_ok h]
    exact ⟨world'.trans world, notes ++ more, by rw [record, record', List.map_append]⟩

/-- What comes behind an action and only makes notes adds notes to its journal. -/
theorem OnlyNotes.behind {x : Action ω ε α} {f : α → Action ω ε β} (hf : ∀ a, OnlyNotes (f a))
    (w : ω) :
    ((x.bind f) w).world = (x w).world ∧
      ∃ notes : List Note,
        ((x.bind f) w).attempt.record = (x w).attempt.record ++ notes.map .note := by
  cases h : (x w).attempt.result with
  | error e =>
    rw [bind_error h]
    exact ⟨rfl, [], (List.append_nil _).symm⟩
  | ok a =>
    obtain ⟨world, notes, record⟩ := hf a (x w).world
    rw [bind_ok h]
    exact ⟨world, notes, by rw [record]⟩

/-! ## Announced actions -/

/-- An action with a note before it, its errors in other words, and what is made of its
value. -/
def announced (before : Note) (x : Action ω ζ α) (inOtherWords : ζ → ε)
    (after : α → Action ω ε β) : Action ω ε β :=
  (note before).bind fun _ => (x.mapError inOtherWords).bind after

/-- What was read, with a note on it. -/
def reading (x : Attempt Note ε β) (remark : β → Note) : Action ω ε β :=
  (ofNoted x).bind fun b => (note (remark b)).bind fun _ => pure b

theorem onlyNotes_reading (x : Attempt Note ε β) (remark : β → Note) :
    OnlyNotes (reading x remark : Action ω ε β) :=
  (onlyNotes_ofNoted x).bind fun b => (onlyNotes_note (remark b)).bind fun _ => onlyNotes_pure b

theorem result_reading (x : Attempt Note ε β) (remark : β → Note) (w : ω) :
    (reading x remark w).attempt.result = x.result := by
  obtain ⟨record, result⟩ := x
  cases result with
  | error e => rfl
  | ok b => rfl

section Announced

variable {before : Note} {x : Action ω ζ α} {inOtherWords : ζ → ε} {after : α → Action ω ε β}
  {w : ω}

theorem world_announced (hafter : ∀ a, OnlyNotes (after a)) :
    (announced before x inOtherWords after w).world = (x w).world :=
  (OnlyNotes.behind (x := x.mapError inOtherWords) hafter w).1

theorem moves_announced (hafter : ∀ a, OnlyNotes (after a)) :
    Entry.moves (announced before x inOtherWords after w).attempt.record =
      Entry.moves (x w).attempt.record := by
  obtain ⟨-, notes, record⟩ := OnlyNotes.behind (x := x.mapError inOtherWords) hafter w
  refine (congrArg Entry.moves record).trans ?_
  rw [Entry.moves_append, Entry.moves_notes, List.append_nil]
  rfl

theorem result_announced_eq_ok_iff {b : β} :
    (announced before x inOtherWords after w).attempt.result = .ok b ↔
      ∃ a, (x w).attempt.result = .ok a ∧ (after a (x w).world).attempt.result = .ok b := by
  rw [announced, note_bind, result_bind_eq_ok_iff]
  simp only [mapError, Attempt.result_mapError_eq_ok_iff]

theorem result_announced_eq_error_iff {e : ε} :
    (announced before x inOtherWords after w).attempt.result = .error e ↔
      (∃ f, (x w).attempt.result = .error f ∧ inOtherWords f = e) ∨
        ∃ a, (x w).attempt.result = .ok a ∧ (after a (x w).world).attempt.result = .error e := by
  rw [announced, note_bind, result_bind_eq_error_iff]
  simp only [mapError, Attempt.result_mapError_eq_ok_iff, Attempt.result_mapError_eq_error_iff]

end Announced

end Action

namespace Host

variable {ω σ : Type}

theorem moves_drain (h : Host ω σ) (maxSize : Nat) (url : String) (held : Nat) (s : σ) (w : ω) :
    Entry.moves (h.drain maxSize url held s w).attempt.record = [] := by
  fun_induction drain h maxSize url held s w with
  | case1 held s w w₁ asked => rfl
  | case2 held s w w₁ asked cause s₂ w₂ read => rfl
  | case3 held s w w₁ asked s₂ w₂ read ih => exact ih
  | case4 held s w w₁ asked s₂ w₂ read => rfl
  | case5 held s w w₁ asked b bs s₂ w₂ read chunk long => rfl
  | case6 held s w w₁ asked b bs s₂ w₂ read chunk short granted ih => exact ih
  | case7 held s w w₁ asked b bs s₂ w₂ read chunk short refused => rfl

/-- Reading a stream moves none. -/
theorem moves_readAll (h : Host ω σ) (limits : Limits) (url : String) (s : σ) (w : ω) :
    Entry.moves (h.readAll limits url s w).attempt.record = [] := by
  have still := h.moves_drain limits.maxSize.toNat url 0 s w
  rw [readAll]
  split
  · simp only
    split
    · simp only [Drained.after, Entry.moves_append, still]
      rfl
    · simp only [Drained.after, Entry.moves_append, still]
      rfl
  · rfl

theorem moves_readAndClose (h : Host ω σ) (limits : Limits) (url : String) (s : σ) (w : ω) :
    Entry.moves (h.readAndClose limits url s w).attempt.record = [.opened url, .closing url] := by
  have still := h.moves_readAll limits url s w
  calc Entry.moves (h.readAndClose limits url s w).attempt.record
      = .opened url :: Entry.moves (h.readAll limits url s w).attempt.record ++ [.closing url] := by
        exact Entry.moves_append _ _
    _ = [.opened url, .closing url] := by rw [still]; rfl

/-- The moves of a load: none with the stream that was supplied, and without one the
opening of a stream, which is closed again if it was to be had. -/
def loadMoves (h : Host ω σ) (options : Options) (url : String) (supplied : Option σ) (w : ω) :
    List Entry :=
  match supplied with
  | some _ => []
  | none =>
    .opening url options ::
      match (h.openStream url options w).attempt.result with
      | .ok _ => [.opened url, .closing url]
      | .error _ => []

theorem moves_load (h : Host ω σ) (limits : Limits) (options : Options) (url : String)
    (supplied : Option σ) (w : ω) :
    Entry.moves (h.load limits options url supplied w).attempt.record =
      h.loadMoves options url supplied w := by
  cases supplied with
  | some s => exact h.moves_readAll limits url s w
  | none =>
    have silent : Entry.moves (h.openStream url options w).attempt.record = [] := by
      apply Entry.moves_eq_nil
      intro e he
      exact Entry.isMove_of_isIncidental (h.incidental url options w e he)
    rw [load_opened, Action.enter_bind, loadMoves]
    cases opens : (h.openStream url options w).attempt.result with
    | error e =>
      rw [Action.bind_error opens]
      exact congrArg (.opening url options :: ·) silent
    | ok s =>
      have closes := h.moves_readAndClose limits url s (h.openStream url options w).world
      rw [Action.bind_ok opens]
      refine congrArg (Entry.opening url options :: ·) ?_
      exact (Entry.moves_append _ _).trans (by rw [silent, closes, List.nil_append])

theorem inTurns_loadMoves (h : Host ω σ) (options : Options) (url : String)
    (supplied : Option σ) (w : ω) : Entry.InTurns (h.loadMoves options url supplied w) := by
  cases supplied with
  | some s => exact .done
  | none =>
    rw [loadMoves]
    cases (h.openStream url options w).attempt.result with
    | error e => exact .opening .done
    | ok s => exact .opening (.stream .done)

/-- A load asks for a stream exactly when none was supplied. -/
theorem openings_loadMoves (h : Host ω σ) (options : Options) (url : String)
    (supplied : Option σ) (w : ω) :
    Entry.openings (h.loadMoves options url supplied w) =
      if supplied.isNone then [(url, options)] else [] := by
  cases supplied with
  | some s => rfl
  | none =>
    rw [loadMoves]
    cases (h.openStream url options w).attempt.result with
    | error e => rfl
    | ok s => rfl

end Host

end MasterPackage.Transport
