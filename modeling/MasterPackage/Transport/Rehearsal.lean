import MasterPackage.Transport.StopRule
import MasterPackage.Transport.Load
import MasterPackage.Transport.Memory
import MasterPackage.Transport.Script

/-!
# Rehearsals

A rehearsal is a host whose every move is written down beforehand: which locations
have a stream, what each stream is going to bring, and when the caller wants to stop.
It opens a stream without asking the caller.
-/

namespace MasterPackage.Transport

/-- A stream in memory, or a scripted one. -/
inductive Stream where
  | memory (m : Memory)
  | scripted (s : Script)
  deriving DecidableEq, Repr

namespace Stream

/-- Reads at most so many bytes; a script may set the caller's flag. -/
def read (n : Nat) (s : Stream) (w : Signals) : Reading × Stream × Signals :=
  match s with
  | memory m =>
    let (chunk, m) := m.read n
    (.bytes chunk, memory m, w)
  | scripted s =>
    let (reading, s, flag) := s.read n w.flag
    (reading, scripted s, { w with flag })

/-- The size of a stream, if it tells. -/
def size? : Stream → Option Nat
  | memory m => m.size?
  | scripted s => s.size

/-- Whether the end of a stream was seen. -/
def atEnd : Stream → Bool
  | memory m => m.atEnd
  | scripted s => s.atEnd

/-- How much is left of a stream. -/
def pending : Stream → Nat
  | memory m => m.remaining
  | scripted s => s.pending

theorem pending_read_lt (s : Stream) (n : Nat) (w : Signals)
    (h : (s.read n w).1.goesOn = true) : (s.read n w).2.1.pending < s.pending := by
  cases s with
  | memory m =>
    simp only [read, Reading.goesOn, Bool.not_eq_true', List.isEmpty_eq_false_iff] at h
    have h1 := List.length_pos_iff.2 h
    have h2 := m.length_read n
    simp only [read, pending, m.remaining_read n]
    omega
  | scripted s => exact Script.pending_read_lt h

end Stream

/-- What becomes of the opening of a location. -/
inductive Source where
  | stream (s : Stream)
  | refused (cause : String)
  deriving DecidableEq, Repr

/-- What is going to happen: the locations, and when the caller stops. -/
structure Rehearsal where
  files : List (String × Source)
  stop : StopRule

namespace Rehearsal

/-- Buffers up to this size can be had. -/
def memory : Nat := 0x800000000000

/-- Opens a location. -/
def source (r : Rehearsal) (url : String) : Except LoadError Stream :=
  match r.files.lookup url with
  | some (.stream s) => .ok s
  | some (.refused cause) => .error (.notOpened url cause)
  | none => .error (.notOpened url "entity not found")

/-- The host that does what is written down. -/
def host (r : Rehearsal) : Host Signals Stream where
  openStream url _ := Action.ofAttempt (.ofExcept (r.source url))
  read := Stream.read
  size? := Stream.size?
  atEnd := Stream.atEnd
  poll := r.stop.poll
  grants held requested := held + requested < memory
  room _ := true
  patience s _ := s.pending
  incidental _ _ _ _ h := nomatch h
  patience_lt n s _ _ h := s.pending_read_lt n _ (by rw [h]; rfl)

end Rehearsal

end MasterPackage.Transport
