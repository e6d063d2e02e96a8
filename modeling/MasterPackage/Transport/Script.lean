import MasterPackage.Transport.Host

/-!
# Scripted streams

A script lists beforehand what the reads of a stream are going to bring.  Bytes are
served in pieces as large as the reader takes them.  A step may also raise or lower
the caller's flag, as somebody outside would do while a load is under way.
-/

namespace MasterPackage.Transport

/-- One step of a script. -/
inductive Script.Step where
  | data (bytes : List UInt8)
  /-- The read is disturbed and is to be tried again. -/
  | again
  | fail (cause : String)
  /-- The read brings nothing. -/
  | stall
  /-- The caller's flag is set, and the read goes on with the next step. -/
  | flag (value : Bool)
  deriving DecidableEq, Repr

/-- When a script says that its end was seen. -/
inductive Script.Ending where
  /-- Once all of it is played. -/
  | played
  /-- Once a read found nothing more to play. -/
  | noticed
  | never
  | always
  deriving DecidableEq, Repr

/-- A stream that plays a script. -/
structure Script where
  steps : List Script.Step
  /-- What is left of the bytes being served. -/
  unserved : List UInt8
  /-- Whether a read found nothing more to play. -/
  ended : Bool
  ending : Script.Ending
  size : Option Nat
  deriving DecidableEq, Repr

namespace Script

/-- A script from its start. -/
def start (steps : List Step) (ending : Ending) (size : Option Nat) : Script :=
  ⟨steps, [], false, ending, size⟩

/-- Plays steps up to the one that decides a read; `flag` is the caller's flag. -/
def play (s : Script) (n : Nat) (flag : Bool) : List Step → Reading × Script × Bool
  | [] => (.bytes [], { s with steps := [], unserved := [], ended := true }, flag)
  | .data [] :: steps => s.play n flag steps
  | .data (b :: bs) :: steps =>
    (.bytes ((b :: bs).take n), { s with steps, unserved := (b :: bs).drop n }, flag)
  | .again :: steps => (.again, { s with steps, unserved := [] }, flag)
  | .fail cause :: steps => (.failed cause, { s with steps, unserved := [] }, flag)
  | .stall :: steps => (.bytes [], { s with steps, unserved := [] }, flag)
  | .flag value :: steps => s.play n value steps

/-- Reads at most so many bytes. -/
def read (n : Nat) (s : Script) (flag : Bool) : Reading × Script × Bool :=
  match s.unserved with
  | b :: bs => (.bytes ((b :: bs).take n), { s with unserved := (b :: bs).drop n }, flag)
  | [] => s.play n flag s.steps

/-- Whether the end was seen. -/
def atEnd (s : Script) : Bool :=
  match s.ending with
  | .played => s.steps.isEmpty && s.unserved.isEmpty
  | .noticed => s.ended
  | .never => false
  | .always => true

/-- How much a step has to give. -/
def Step.weight : Step → Nat
  | data bytes => bytes.length + 1
  | _ => 1

/-- How much steps have to give. -/
def weight (steps : List Step) : Nat := steps.foldr (fun step n => step.weight + n) 0

/-- How much is left of a script. -/
def pending (s : Script) : Nat := s.unserved.length + weight s.steps

theorem take_ne_nil_goesOn {chunk : List UInt8} {n : Nat}
    (h : (Reading.bytes (chunk.take n)).goesOn = true) : (chunk.drop n).length < chunk.length := by
  cases n with
  | zero => simp [Reading.goesOn] at h
  | succ n =>
    cases chunk with
    | nil => simp [Reading.goesOn] at h
    | cons b bs => simp only [List.drop_succ_cons, List.length_drop, List.length_cons]; omega

theorem pending_play_lt {s : Script} {n : Nat} {flag : Bool} {steps : List Step}
    (h : (s.play n flag steps).1.goesOn = true) :
    (s.play n flag steps).2.1.pending < weight steps := by
  induction steps generalizing flag with
  | nil => simp [play, Reading.goesOn] at h
  | cons step steps ih =>
    match step with
    | .data [] =>
      have := ih h
      simp only [play, weight, List.foldr_cons, Step.weight] at this ⊢
      omega
    | .data (b :: bs) =>
      have := take_ne_nil_goesOn h
      simp only [play, pending, weight, List.foldr_cons, Step.weight]
      omega
    | .again =>
      simp only [play, pending, weight, List.foldr_cons, Step.weight, List.length_nil]
      omega
    | .fail cause => simp [play, Reading.goesOn] at h
    | .stall => simp [play, Reading.goesOn] at h
    | .flag value =>
      have := ih h
      simp only [play, weight, List.foldr_cons, Step.weight] at this ⊢
      omega

theorem pending_read_lt {s : Script} {n : Nat} {flag : Bool}
    (h : (s.read n flag).1.goesOn = true) : (s.read n flag).2.1.pending < s.pending := by
  simp only [read] at h ⊢
  split at h
  · next b bs hu =>
    have := take_ne_nil_goesOn h
    simp only [pending, hu]
    omega
  · next hu =>
    have := pending_play_lt h
    simp only [pending, hu, List.length_nil] at this ⊢
    omega

end Script

end MasterPackage.Transport
