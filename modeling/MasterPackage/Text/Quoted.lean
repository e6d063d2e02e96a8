import MasterPackage.Text.Hex

/-!
# Quoted text

Messages show a text they complain about between double quotes.  The quote and
the backslash get a backslash, the common control characters have short forms,
and other characters that would not show are written by their numbers: all the
controls and separators, and the format characters that texts are likely to have.
Marks that combine with the character before them, rare format characters, and
characters of private use or without a use are written as they are, although they
may not show either.
-/

namespace MasterPackage.Text

/-- Characters that are written by their numbers: controls, separators other than the
space, and the format characters in the listed ranges.  Not all characters that would
not show are among them. -/
def isUnseen (c : Char) : Bool :=
  let n := c.toNat
  n < 0x20 || (0x7F ≤ n && n ≤ 0xA0) || n == 0xAD || (0x600 ≤ n && n ≤ 0x605) || n == 0x61C ||
    n == 0x6DD || n == 0x70F || n == 0x1680 || n == 0x180E || (0x2000 ≤ n && n ≤ 0x200F) ||
    (0x2028 ≤ n && n ≤ 0x202F) || (0x205F ≤ n && n ≤ 0x206F) || n == 0x3000 || n == 0xFEFF ||
    (0xFFF9 ≤ n && n ≤ 0xFFFB)

/-- How one character stands inside the quotes. -/
def quoteChar (c : Char) : List Char :=
  if c = '"' then ['\\', '"']
  else if c = '\\' then ['\\', '\\']
  else if c = '\t' then ['\\', 't']
  else if c = '\n' then ['\\', 'n']
  else if c = '\r' then ['\\', 'r']
  else if c = Char.ofNat 0 then ['\\', '0']
  else if isUnseen c then ['\\', 'u', '\x7b'] ++ Hex.ofNat c.toNat ++ ['\x7d']
  else [c]

/-- The text between double quotes. -/
def quoted (s : String) : String :=
  String.ofList ('"' :: s.toList.flatMap quoteChar ++ ['"'])

end MasterPackage.Text
