/-!
# Readings

What one read of a stream brings, and whether the reader goes on after it.
-/

namespace MasterPackage.Transport

/-- What one read brings. -/
inductive Reading where
  /-- Bytes; none at all means that the stream has come to a stop. -/
  | bytes (chunk : List UInt8)
  /-- Nothing this time: the read was disturbed and is to be tried again. -/
  | again
  | failed (cause : String)
  deriving DecidableEq, Repr

/-- Whether another read follows. -/
def Reading.goesOn : Reading → Bool
  | .bytes chunk => !chunk.isEmpty
  | .again => true
  | .failed _ => false

end MasterPackage.Transport
