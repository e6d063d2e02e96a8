import MasterPackage.Text.Hex

/-!
# JSON values and their text

Reports and identifiers are written as JSON.  Members keep the order in which they
are given.  There are two layouts: compact, without blanks, and indented by two
spaces a level, where an empty list or object stays on one line.  In a string the
quote and the backslash get a backslash, and controls are written by their numbers or
in their short forms; every other character stands for itself.
-/

namespace MasterPackage

/-- The JSON values that the library writes. -/
inductive Json where
  | null
  | number (n : Nat)
  | text (s : String)
  | list (items : List Json)
  | object (members : List (String × Json))

namespace Json

/-- How one character stands inside a JSON string. -/
def quoteChar (c : Char) : List Char :=
  if c = '"' then ['\\', '"']
  else if c = '\\' then ['\\', '\\']
  else if c.toNat = 0x08 then ['\\', 'b']
  else if c = '\t' then ['\\', 't']
  else if c = '\n' then ['\\', 'n']
  else if c.toNat = 0x0C then ['\\', 'f']
  else if c = '\r' then ['\\', 'r']
  else if c.toNat < 0x20 then
    ['\\', 'u', '0', '0', Text.Hex.digit (c.toNat / 16), Text.Hex.digit (c.toNat % 16)]
  else [c]

/-- A JSON string as characters, quotes included. -/
def quoteChars (s : List Char) : List Char := '"' :: s.flatMap quoteChar ++ ['"']

/-- A JSON string. -/
def quote (s : String) : String := String.ofList (quoteChars s.toList)

/-! ## Compact layout -/

mutual

/-- The text of a value without any blank. -/
def compact : Json → String
  | null => "null"
  | number n => toString n
  | text s => quote s
  | list items => "[" ++ compactItems items ++ "]"
  | object members => "\x7b" ++ compactMembers members ++ "\x7d"

/-- The items of a list with commas between. -/
def compactItems : List Json → String
  | [] => ""
  | [v] => compact v
  | v :: vs => compact v ++ "," ++ compactItems vs

/-- The members of an object with commas between. -/
def compactMembers : List (String × Json) → String
  | [] => ""
  | [(k, v)] => quote k ++ ":" ++ compact v
  | (k, v) :: ms => quote k ++ ":" ++ compact v ++ "," ++ compactMembers ms

end

/-! ## Indented layout -/

/-- A new line with its indentation. -/
def newLine (depth : Nat) : String := "\n" ++ String.ofList (List.replicate (2 * depth) ' ')

mutual

/-- The text of a value that stands at the given depth. -/
def indentedAt (depth : Nat) : Json → String
  | null => "null"
  | number n => toString n
  | text s => quote s
  | list [] => "[]"
  | list items => "[" ++ indentedItems (depth + 1) items ++ newLine depth ++ "]"
  | object [] => "\x7b\x7d"
  | object members => "\x7b" ++ indentedMembers (depth + 1) members ++ newLine depth ++ "\x7d"

/-- The items of a list, each on its own line. -/
def indentedItems (depth : Nat) : List Json → String
  | [] => ""
  | [v] => newLine depth ++ indentedAt depth v
  | v :: vs => newLine depth ++ indentedAt depth v ++ "," ++ indentedItems depth vs

/-- The members of an object, each on its own line. -/
def indentedMembers (depth : Nat) : List (String × Json) → String
  | [] => ""
  | [(k, v)] => newLine depth ++ quote k ++ ": " ++ indentedAt depth v
  | (k, v) :: ms =>
    newLine depth ++ quote k ++ ": " ++ indentedAt depth v ++ "," ++ indentedMembers depth ms

end

/-- The text of a value, indented by two spaces a level. -/
def indented (v : Json) : String := indentedAt 0 v

end Json

end MasterPackage
