import MasterPackage.Attempt
import MasterPackage.Log
import MasterPackage.Transport.Error
import MasterPackage.Transport.Options
import MasterPackage.Transport.Reading

/-!
# Actions

An action is an attempt that deals with the world outside.  The world is a state that
the action takes and gives back, also when it fails, and everything the action does
to the world is recorded in a journal, together with the notes it makes.
-/

namespace MasterPackage.Transport

/-- One line of the journal. -/
inductive Entry where
  | note (n : Note)
  /-- The host was asked to open a stream. -/
  | opening (url : String) (options : Options)
  /-- A stream was opened, and is open until it is closed. -/
  | opened (url : String)
  /-- An opened stream was closed. -/
  | closing (url : String)
  /-- The caller was asked whether to stop. -/
  | poll (stop : Bool)
  /-- A stream was read. -/
  | read (brought : Reading)
  /-- Memory was asked for, beyond what was in use. -/
  | reservation (held requested : Nat)
  deriving DecidableEq, Repr

namespace Entry

/-- The note on a line, if it is one. -/
def note? : Entry → Option Note
  | note n => some n
  | _ => none

/-- Whether a line is a note or a question to the caller, and says nothing of streams. -/
def isIncidental : Entry → Bool
  | note _ => true
  | poll _ => true
  | _ => false

/-- The notes of a journal, in order. -/
def notes (journal : List Entry) : List Note := journal.filterMap note?

/-- The openings of a journal, in order. -/
def openings (journal : List Entry) : List (String × Options) :=
  journal.filterMap fun
    | opening url options => some (url, options)
    | _ => none

/-- The number of streams closed. -/
def closings (journal : List Entry) : Nat :=
  (journal.filter fun
    | closing _ => true
    | _ => false).length

/-- The number of reads. -/
def reads (journal : List Entry) : Nat :=
  (journal.filter fun
    | read _ => true
    | _ => false).length

/-- The number of times the caller was asked. -/
def polls (journal : List Entry) : Nat :=
  (journal.filter fun
    | poll _ => true
    | _ => false).length

end Entry

/-- What an action comes to, and the world after it. -/
structure Outcome (ω ε α : Type) where
  attempt : Attempt Entry ε α
  world : ω

/-- An attempt in a world of states `ω`. -/
def Action (ω ε α : Type) : Type := ω → Outcome ω ε α

namespace Action

variable {ω ε ζ α β : Type}

/-- An action that leaves the world alone. -/
def ofAttempt (x : Attempt Entry ε α) : Action ω ε α := fun w => ⟨x, w⟩

/-- An action that only makes notes. -/
def ofNoted (x : Attempt Note ε α) : Action ω ε α := ofAttempt (x.mapRecord .note)

/-- A line for the journal. -/
def enter (e : Entry) : Action ω ε Unit := ofAttempt ⟨[e], .ok ()⟩

/-- A note for the journal. -/
def note (n : Note) : Action ω ε Unit := enter (.note n)

/-- Goes on with a value in the world as it is then. -/
def bind (x : Action ω ε α) (f : α → Action ω ε β) : Action ω ε β := fun w =>
  let y := x w
  match y.attempt.result with
  | .ok a =>
    let z := f a y.world
    ⟨⟨y.attempt.record ++ z.attempt.record, z.attempt.result⟩, z.world⟩
  | .error e => ⟨⟨y.attempt.record, .error e⟩, y.world⟩

instance : Monad (Action ω ε) where
  pure a := ofAttempt (.ok a)
  bind := bind

/-- Says in other words why an action failed. -/
def mapError (f : ε → ζ) (x : Action ω ε α) : Action ω ζ α := fun w =>
  let y := x w
  ⟨y.attempt.mapError f, y.world⟩

theorem bind_ok {x : Action ω ε α} {f : α → Action ω ε β} {w : ω} {a : α}
    (h : (x w).attempt.result = .ok a) :
    (x.bind f) w =
      ⟨⟨(x w).attempt.record ++ (f a (x w).world).attempt.record,
        (f a (x w).world).attempt.result⟩, (f a (x w).world).world⟩ := by
  simp [bind, h]

theorem bind_error {x : Action ω ε α} {f : α → Action ω ε β} {w : ω} {e : ε}
    (h : (x w).attempt.result = .error e) :
    (x.bind f) w = ⟨⟨(x w).attempt.record, .error e⟩, (x w).world⟩ := by
  simp [bind, h]

theorem result_bind_of_ok {x : Action ω ε α} {w : ω} {a : α} (h : (x w).attempt.result = .ok a)
    (f : α → Action ω ε β) :
    ((x.bind f) w).attempt.result = (f a (x w).world).attempt.result := by
  rw [bind_ok h]

theorem result_bind_eq_ok_iff {x : Action ω ε α} {f : α → Action ω ε β} {w : ω} {b : β} :
    ((x.bind f) w).attempt.result = .ok b ↔
      ∃ a, (x w).attempt.result = .ok a ∧ (f a (x w).world).attempt.result = .ok b := by
  cases h : (x w).attempt.result <;> simp [bind, h]

theorem result_bind_eq_error_iff {x : Action ω ε α} {f : α → Action ω ε β} {w : ω} {e : ε} :
    ((x.bind f) w).attempt.result = .error e ↔
      (x w).attempt.result = .error e ∨
        ∃ a, (x w).attempt.result = .ok a ∧ (f a (x w).world).attempt.result = .error e := by
  cases h : (x w).attempt.result <;> simp [bind, h]

theorem bind_def (x : Action ω ε α) (f : α → Action ω ε β) : x >>= f = x.bind f := rfl

theorem result_pure (a : α) (w : ω) : ((pure a : Action ω ε α) w).attempt.result = .ok a := rfl

theorem enter_bind (e : Entry) (f : Unit → Action ω ε α) (w : ω) :
    (enter e).bind f w =
      ⟨⟨e :: (f () w).attempt.record, (f () w).attempt.result⟩, (f () w).world⟩ := rfl

theorem note_bind (n : Note) (f : Unit → Action ω ε α) (w : ω) :
    (note n).bind f w =
      ⟨⟨.note n :: (f () w).attempt.record, (f () w).attempt.result⟩, (f () w).world⟩ := rfl

end Action

end MasterPackage.Transport
