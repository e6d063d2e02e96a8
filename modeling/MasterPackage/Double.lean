/-!
# Double precision

Double precision keeps 53 binary digits of a number.  A whole number is rounded to the
nearest one that it can keep, and of two equally near to the even one.  The largest
number of double precision lies just below the 1024th power of two.
-/

namespace MasterPackage.Double

/-- The value of the last binary digit that is kept of a number. -/
def unit (n : Nat) : Nat := Nat.pow 2 (n.log2 + 1 - 53)

/-- The nearest number that double precision can keep, if there were no largest one. -/
def nearest (n : Nat) : Nat :=
  let q := n / unit n
  let r := n % unit n
  if 2 * r < unit n ∨ (2 * r = unit n ∧ q % 2 = 0) then q * unit n else (q + 1) * unit n

/-- The least number that is too large: it lies halfway between the largest number of
double precision and the power of two behind it. -/
def overflow : Nat := Nat.pow 2 1024 - Nat.pow 2 970

end MasterPackage.Double
