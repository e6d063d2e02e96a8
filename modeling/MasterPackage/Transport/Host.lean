import MasterPackage.Transport.Action

/-!
# Hosts

A host is what the library runs on: it opens streams, reads from them, tells whether
the caller wants to stop, and hands out memory.  Its world may be in any state, and
each of these but the last may change it.  A stream may fail, stall or go on for ever,
but it cannot ask for ever to be read again: after so many reads that bring nothing it
brings something, unless the caller wants to stop before.  What a host writes in the
journal while it opens a stream is incidental: that a stream was opened, read or closed
is for those to write who use the host.
-/

namespace MasterPackage.Transport

/-- A host with worlds `ω` and streams `σ`. -/
structure Host (ω σ : Type) where
  /-- Opens the stream at a location. -/
  openStream : String → Options → Action ω LoadError σ
  /-- Reads at most so many bytes. -/
  read : Nat → σ → ω → Reading × σ × ω
  /-- The size of a stream, if the host knows it. -/
  size? : σ → Option Nat
  /-- Whether the end of a stream was seen. -/
  atEnd : σ → Bool
  /-- Asks whether to stop. -/
  poll : ω → Bool × ω
  /-- Whether a buffer that holds so many bytes can grow by so many more. -/
  grants : Nat → Nat → Bool
  /-- Whether a registry of so many entries can grow. -/
  room : Nat → Bool
  /-- A bound for the times in a row that a caller who does not stop is asked to read
  again. -/
  patience : σ → ω → Nat
  incidental : ∀ url options w, ∀ e ∈ (openStream url options w).attempt.record,
    e.isIncidental = true
  patience_lt : ∀ n s w, (poll w).1 = false → (read n s (poll w).2).1 = .again →
    patience (read n s (poll w).2).2.1 (read n s (poll w).2).2.2 < patience s w

end MasterPackage.Transport
