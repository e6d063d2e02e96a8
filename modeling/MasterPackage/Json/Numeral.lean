import MasterPackage.Double

/-!
# Numbers as they are written

The value of a number is never asked for, only whether double precision reaches that
far.  It is answered from the digits that 64 bits can hold, rounded to double
precision, and from the power of ten that they are multiplied with, rounded likewise.
Near the limit the rounding decides, so two texts for one number may differ in this.
-/

namespace MasterPackage.Json

/-- A number as it stands in the text: the digits before and after the point, and
the exponent. -/
structure Numeral where
  whole : List Char
  fraction : List Char
  exponent : Int

/-- The value of a decimal digit. -/
def digitValue (c : Char) : Nat := c.toNat - 0x30

/-- The number that digits spell behind those of a number before them. -/
def decimalFrom (n : Nat) (ds : List Char) : Nat := ds.foldl (fun n d => n * 10 + digitValue d) n

/-- The number that decimal digits spell. -/
def decimal (ds : List Char) : Nat := decimalFrom 0 ds

/-- Puts digits behind those of a number as long as 64 bits can hold it; the second
part is what is left of the digits when they no longer can. -/
def putDigits (n : Nat) : List Char → Nat × List Char
  | [] => (n, [])
  | d :: ds =>
    if n * 10 + digitValue d < UInt64.size then putDigits (n * 10 + digitValue d) ds
    else (n, d :: ds)

namespace Numeral

/-- The digits that count, as a whole number, and the power of ten it is multiplied
with.  A digit before the point that does not count raises the power all the same. -/
def scaled (n : Numeral) : Nat × Int :=
  let (whole, dropped) := putDigits 0 n.whole
  let (significand, ignored) := putDigits whole n.fraction
  (significand, n.exponent + dropped.length + ignored.length - n.fraction.length)

/-- The largest power of ten within double precision. -/
def maxPower : Nat := 308

/-- Whether a number is too large for double precision. -/
def isTooLarge (n : Numeral) : Bool :=
  let (significand, power) := n.scaled
  if significand = 0 ∨ power ≤ 0 then false
  else if maxPower < power then true
  else Double.overflow ≤ Double.nearest significand * Double.nearest (Nat.pow 10 power.toNat)

end Numeral

end MasterPackage.Json
