import MasterPackage.Transport.Host

/-!
# Streams over bytes in memory

A read takes from the front of what remains, up to as many bytes as are asked for.
-/

namespace MasterPackage.Transport

/-- Bytes and how many of them have been read.  The stream may keep its size to
itself, as a pipe does. -/
structure Memory where
  data : List UInt8
  position : Nat
  sized : Bool
  deriving DecidableEq, Repr

namespace Memory

/-- A stream that tells its size. -/
def ofBytes (data : List UInt8) : Memory := ⟨data, 0, true⟩

/-- A stream that keeps its size to itself. -/
def unsized (data : List UInt8) : Memory := ⟨data, 0, false⟩

/-- The bytes not read yet. -/
def rest (m : Memory) : List UInt8 := m.data.drop m.position

/-- The number of bytes not read yet. -/
def remaining (m : Memory) : Nat := m.data.length - m.position

/-- Reads at most so many bytes. -/
def read (n : Nat) (m : Memory) : List UInt8 × Memory :=
  let chunk := m.rest.take n
  (chunk, { m with position := m.position + chunk.length })

/-- The size, if the stream tells it. -/
def size? (m : Memory) : Option Nat := if m.sized then some m.data.length else none

/-- Whether everything has been read. -/
def atEnd (m : Memory) : Bool := m.data.length ≤ m.position

theorem length_rest (m : Memory) : m.rest.length = m.remaining := by simp [rest, remaining]

theorem length_read (n : Nat) (m : Memory) : (m.read n).1.length = min n m.remaining := by
  simp [read, length_rest]

theorem rest_read (n : Nat) (m : Memory) : (m.read n).2.rest = m.rest.drop n := by
  simp only [read, rest, List.length_take, List.length_drop, List.drop_drop]
  by_cases h : n ≤ m.data.length - m.position
  · rw [Nat.min_eq_left h]
  · rw [Nat.min_eq_right (by omega), List.drop_eq_nil_of_le (by omega),
      List.drop_eq_nil_of_le (by omega)]

theorem read_append (n : Nat) (m : Memory) : (m.read n).1 ++ (m.read n).2.rest = m.rest := by
  rw [rest_read]
  exact List.take_append_drop n m.rest

theorem remaining_read (n : Nat) (m : Memory) :
    (m.read n).2.remaining = m.remaining - (m.read n).1.length := by
  rw [← length_rest, rest_read, List.length_drop, length_rest, length_read]
  omega

end Memory

end MasterPackage.Transport
