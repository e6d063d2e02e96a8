/-!
# Hexadecimal digits

Digits are written in lower case and read in either case.
-/

namespace MasterPackage.Text.Hex

/-- The lower-case digit of a value below sixteen. -/
def digit (n : Nat) : Char := if n < 10 then Char.ofNat (0x30 + n) else Char.ofNat (0x57 + n)

/-- The value of a digit, in either case. -/
def value? (c : Char) : Option Nat :=
  let n := c.toNat
  if 0x30 ≤ n ∧ n ≤ 0x39 then some (n - 0x30)
  else if 0x61 ≤ n ∧ n ≤ 0x66 then some (n - 0x57)
  else if 0x41 ≤ n ∧ n ≤ 0x46 then some (n - 0x37)
  else none

/-- The two digits of a byte, high half first. -/
def byteDigits (b : UInt8) : List Char := [digit (b.toNat / 16), digit (b.toNat % 16)]

/-- The digits of bytes, in order. -/
def encode (bs : List UInt8) : String := String.ofList (bs.flatMap byteDigits)

/-- The digits of a number without leading zeros; zero is written as one digit. -/
def ofNat (n : Nat) : List Char :=
  if n < 16 then [digit n] else ofNat (n / 16) ++ [digit (n % 16)]

theorem value?_digit : ∀ n < 16, value? (digit n) = some n := by decide

theorem lt_of_value? {c : Char} {n : Nat} (h : value? c = some n) : n < 16 := by
  simp only [value?] at h
  split at h
  · simp only [Option.some.injEq] at h; omega
  · split at h
    · simp only [Option.some.injEq] at h; omega
    · split at h
      · simp only [Option.some.injEq] at h; omega
      · simp at h

theorem length_byteDigits (b : UInt8) : (byteDigits b).length = 2 := rfl

end MasterPackage.Text.Hex
