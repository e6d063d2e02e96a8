import MasterPackage.Double
import MasterPackage.Text.Hex
import MasterPackage.Text.Utf8

/-!
# The pieces of TOML

Blanks, comments, keys, strings, numbers and moments.  Each piece is read from the
front of a text, which gives what the piece means and the text after it, or nothing
if no such piece stands there.
-/

namespace MasterPackage.Toml

/-- A tab, or a character that is no control. -/
def isPlain (c : Char) : Bool := c == '\t' || (0x20 ≤ c.toNat && c.toNat != 0x7F)

/-- The text after the blanks at its front. -/
def blank (s : List Char) : List Char := s.dropWhile fun c => c == ' ' || c == '\t'

/-- The text after the line end at its front. -/
def newline? : List Char → Option (List Char)
  | '\n' :: r => some r
  | '\r' :: '\n' :: r => some r
  | _ => none

/-- The text after the comment at its front, if one is there. -/
def comment (s : List Char) : List Char :=
  match s with
  | '#' :: r => r.dropWhile isPlain
  | r => r

/-- The text after the rest of a line that holds nothing more. -/
def lineEnd? (s : List Char) : Option (List Char) :=
  match comment (blank s) with
  | [] => some []
  | r => newline? r

/-- The text after blanks, comments and line ends; the fuel bounds their number. -/
def gap : Nat → List Char → List Char
  | 0, s => s
  | fuel + 1, s =>
    match comment (blank s) with
    | [] => []
    | r =>
      match newline? r with
      | some r => gap fuel r
      | none => r

/-! ## Strings -/

/-- The characters that an escape letter spells. -/
def shortEscape? (c : Char) : Option Char :=
  if c = 'b' then some (Char.ofNat 0x08)
  else if c = 't' then some '\t'
  else if c = 'n' then some '\n'
  else if c = 'f' then some (Char.ofNat 0x0C)
  else if c = 'r' then some '\r'
  else if c = '"' then some '"'
  else if c = '\\' then some '\\'
  else none

/-- The character whose number a count of hexadecimal digits spells. -/
def hexEscape? (count : Nat) (s : List Char) : Option (Char × List Char) :=
  let ds := (s.take count).filterMap Text.Hex.value?
  if ds.length = count then
    (Text.Utf8.charOf? (ds.foldl (fun n d => n * 16 + d) 0)).map fun c => (c, s.drop count)
  else none

/-- The character that an escape spells, given the text after its backslash. -/
def escape? (s : List Char) : Option (Char × List Char) :=
  match s with
  | 'u' :: r => hexEscape? 4 r
  | 'U' :: r => hexEscape? 8 r
  | c :: r => (shortEscape? c).map fun d => (d, r)
  | [] => none

/-- The string up to its closing quote, on one line. -/
def basicBody? : Nat → List Char → Option (List Char × List Char)
  | 0, _ => none
  | fuel + 1, s =>
    match s with
    | '"' :: r => some ([], r)
    | '\\' :: r => do
      let (c, r) ← escape? r
      let (cs, r) ← basicBody? fuel r
      pure (c :: cs, r)
    | c :: r =>
      if isPlain c then (basicBody? fuel r).map fun (cs, r) => (c :: cs, r) else none
    | [] => none

/-- The literal string up to its closing apostrophe, on one line. -/
def literalBody? (s : List Char) : Option (List Char × List Char) :=
  match s.dropWhile fun c => isPlain c && c != '\'' with
  | '\'' :: r => some (s.takeWhile fun c => isPlain c && c != '\'', r)
  | _ => none

/-- A run of one to five quotation marks inside a string of several lines: two of them
may belong to the string, and three end it.  Gives the marks that belong to the string
and whether it ends. -/
def closingRun (quote : Char) (s : List Char) : List Char × Bool × List Char :=
  let n := (s.takeWhile (· == quote)).length
  if n < 3 then (List.replicate n quote, false, s.drop n)
  else
    let n := min n 5
    (List.replicate (n - 3) quote, true, s.drop n)

/-- The text after the line ends and blanks that an escaped line end swallows. -/
def swallow : Nat → List Char → List Char
  | 0, s => s
  | fuel + 1, s =>
    let r := blank s
    match newline? r with
    | some r => swallow fuel r
    | none => r

/-- The string of several lines up to its closing marks; `literal` strings have no
escapes. -/
def linesBody? (literal : Bool) : Nat → List Char → Option (List Char × List Char)
  | 0, _ => none
  | fuel + 1, s =>
    let quote := if literal then '\'' else '"'
    match s with
    | [] => none
    | c :: r =>
      if c = quote then
        let (marks, ends, r) := closingRun quote s
        if ends then some (marks, r)
        else (linesBody? literal fuel r).map fun (cs, r) => (marks ++ cs, r)
      else if c = '\\' ∧ ¬literal then
        match newline? (blank r) with
        | some r => linesBody? literal fuel (swallow (r.length + 1) r)
        | none => do
          let (c, r) ← escape? r
          let (cs, r) ← linesBody? literal fuel r
          pure (c :: cs, r)
      else
        match newline? s with
        | some r => (linesBody? literal fuel r).map fun (cs, r) => ('\n' :: cs, r)
        | none =>
          if isPlain c then (linesBody? literal fuel r).map fun (cs, r) => (c :: cs, r) else none

/-- The text after a line end that stands first in a string of several lines. -/
def skipFirstLine (s : List Char) : List Char := (newline? s).getD s

/-- A string of any of the four kinds. -/
def string? (s : List Char) : Option (String × List Char) :=
  let body :=
    match s with
    | '"' :: '"' :: '"' :: r => linesBody? false (s.length + 1) (skipFirstLine r)
    | '\'' :: '\'' :: '\'' :: r => linesBody? true (s.length + 1) (skipFirstLine r)
    | '"' :: r => basicBody? (s.length + 1) r
    | '\'' :: r => literalBody? r
    | _ => none
  body.map fun (cs, r) => (String.ofList cs, r)

/-! ## Keys -/

/-- The characters of a key that is not quoted. -/
def isBareKeyChar (c : Char) : Bool := c.isAlphanum || c == '-' || c == '_'

/-- One key. -/
def key? (s : List Char) : Option (String × List Char) :=
  match s with
  | '"' :: r => (basicBody? (s.length + 1) r).map fun (cs, r) => (String.ofList cs, r)
  | '\'' :: r => (literalBody? r).map fun (cs, r) => (String.ofList cs, r)
  | _ =>
    match s.takeWhile isBareKeyChar with
    | [] => none
    | cs => some (String.ofList cs, s.dropWhile isBareKeyChar)

/-- Keys with points between them. -/
def keys? : Nat → List Char → Option (List String × List Char)
  | 0, _ => none
  | fuel + 1, s => do
    let (k, r) ← key? (blank s)
    match blank r with
    | '.' :: r =>
      let (ks, r) ← keys? fuel r
      pure (k :: ks, r)
    | r => pure ([k], r)

/-- How deep keys and values may be nested. -/
def maxDepth : Nat := 80

/-- A dotted key: the keys before the last, and the last. -/
def dottedKey? (s : List Char) : Option (List String × String × List Char) := do
  let (ks, r) ← keys? (s.length + 1) s
  if maxDepth ≤ ks.length then none
  else
    match ks.getLast? with
    | none => none
    | some k => pure (ks.dropLast, k, r)

/-! ## Numbers -/

/-- Digits of a base, which may have single underscores between them. -/
def digits? (isDigit : Char → Bool) : Nat → List Char → Option (List Char × List Char)
  | 0, _ => none
  | fuel + 1, s =>
    match s.takeWhile isDigit, s.dropWhile isDigit with
    | [], _ => none
    | ds, '_' :: r =>
      match digits? isDigit fuel r with
      | some (es, r) => some (ds ++ es, r)
      | none => some (ds, '_' :: r)
    | ds, r => some (ds, r)

/-- The number that digits spell in a base. -/
def spelled (base : Nat) (ds : List Char) : Nat :=
  ds.foldl (fun n d => n * base + (Text.Hex.value? d).getD 0) 0

/-- The whole part of a decimal number; a zero in front stands alone. -/
def whole? (s : List Char) : Option (List Char × List Char) :=
  match s with
  | '0' :: r => some (['0'], r)
  | _ => digits? Char.isDigit (s.length + 1) s

/-- A sign, if there is one, and whether it is a minus. -/
def sign (s : List Char) : Bool × List Char :=
  match s with
  | '-' :: r => (true, r)
  | '+' :: r => (false, r)
  | r => (false, r)

/-- The largest integer. -/
def maxInteger : Nat := 0x7FFFFFFFFFFFFFFF

/-- An integer of a base other than ten, given the text after its mark. -/
def based? (base : Nat) (isDigit : Char → Bool) (s : List Char) : Option (Int × List Char) := do
  let (ds, r) ← digits? isDigit (s.length + 1) s
  let n := spelled base ds
  if n ≤ maxInteger then pure ((n : Int), r) else none

/-- An integer. -/
def integer? (s : List Char) : Option (Int × List Char) :=
  match s with
  | '0' :: 'x' :: r => based? 16 (fun c => (Text.Hex.value? c).isSome) r
  | '0' :: 'o' :: r => based? 8 (fun c => '0' ≤ c && c ≤ '7') r
  | '0' :: 'b' :: r => based? 2 (fun c => c == '0' || c == '1') r
  | _ => do
    let (negative, r) := sign s
    let (ds, r) ← whole? r
    let n := spelled 10 ds
    if negative then
      if n ≤ maxInteger + 1 then pure (-(n : Int), r) else none
    else if n ≤ maxInteger then pure ((n : Int), r)
    else none

/-- The text after an exponent, with its value. -/
def exponent? (s : List Char) : Option (Int × List Char) :=
  match s with
  | 'e' :: r | 'E' :: r => do
    let (negative, r) := sign r
    let (ds, r) ← digits? Char.isDigit (r.length + 1) r
    let n := spelled 10 ds
    pure (if negative then -(n : Int) else n, r)
  | _ => none

/-- The text after a fraction, with its digits. -/
def fraction? (s : List Char) : Option (List Char × List Char) :=
  match s with
  | '.' :: r => digits? Char.isDigit (r.length + 1) r
  | _ => none

/-- Whether a decimal number, its digits shifted by a power of ten, is too large for
double precision. -/
def isTooLarge (ds : List Char) (shift : Int) : Bool :=
  let n := spelled 10 ds
  if n = 0 then false
  else if shift > 400 then true
  else if shift < 0 then Double.overflow * Nat.pow 10 (min (-shift).toNat (ds.length + 1)) ≤ n
  else Double.overflow ≤ n * Nat.pow 10 shift.toNat

/-- The text after a number with a fraction, an exponent or both, or after one of the
special values.  A positive number has to be within double precision. -/
def float? (s : List Char) : Option (List Char) :=
  let (negative, r) := sign s
  match r with
  | 'i' :: 'n' :: 'f' :: r => some r
  | 'n' :: 'a' :: 'n' :: r => some r
  | _ => do
    let (whole, r) ← whole? r
    let (fraction, r, dotted) ←
      match fraction? r with
      | some (ds, r) => some (ds, r, true)
      | none => some ([], r, false)
    let (exponent, r, raised) ←
      match exponent? r with
      | some (e, r) => some (e, r, true)
      | none => some (0, r, false)
    if !dotted && !raised then none
    else if !negative && isTooLarge (whole ++ fraction) (exponent - fraction.length) then none
    else pure r

/-! ## Moments -/

/-- A number of a fixed count of digits within bounds. -/
def fixed? (count low high : Nat) (s : List Char) : Option (Nat × List Char) :=
  let ds := s.take count
  let n := spelled 10 ds
  if ds.length = count ∧ ds.all Char.isDigit ∧ low ≤ n ∧ n ≤ high then some (n, s.drop count)
  else none

/-- The text after a character. -/
def after? (c : Char) : List Char → Option (List Char)
  | d :: r => if d = c then some r else none
  | [] => none

/-- The number of days of a month. -/
def daysIn (year month : Nat) : Nat :=
  if month = 2 then
    if year % 4 = 0 ∧ (year % 100 ≠ 0 ∨ year % 400 = 0) then 29 else 28
  else if month = 4 ∨ month = 6 ∨ month = 9 ∨ month = 11 then 30
  else 31

/-- A number with zeros in front up to a width. -/
def padded (width n : Nat) : String :=
  let ds := toString n
  String.ofList (List.replicate (width - ds.length) '0') ++ ds

/-- Whether a date begins: four digits and a hyphen. -/
def isDate (s : List Char) : Bool :=
  (s.take 4).all Char.isDigit && (s.drop 4).head? == some '-'

/-- Whether a time begins: two digits and a colon. -/
def isTime (s : List Char) : Bool :=
  (s.take 2).all Char.isDigit && (s.drop 2).head? == some ':'

/-- A date. -/
def date? (s : List Char) : Option (String × List Char) := do
  let (year, r) ← fixed? 4 0 9999 s
  let r ← after? '-' r
  let (month, r) ← fixed? 2 1 12 r
  let r ← after? '-' r
  let (day, r) ← fixed? 2 1 (daysIn year month) r
  pure (padded 4 year ++ "-" ++ padded 2 month ++ "-" ++ padded 2 day, r)

/-- The fraction of a second, to nine places and without zeros at its end. -/
def fractionText (ds : List Char) : String :=
  match ((ds.take 9).reverse.dropWhile (· == '0')).reverse with
  | [] => ""
  | ds => "." ++ String.ofList ds

/-- A time of day. -/
def time? (s : List Char) : Option (String × List Char) := do
  let (hour, r) ← fixed? 2 0 23 s
  let r ← after? ':' r
  let (minute, r) ← fixed? 2 0 59 r
  let r ← after? ':' r
  let (second, r) ← fixed? 2 0 60 r
  let text := padded 2 hour ++ ":" ++ padded 2 minute ++ ":" ++ padded 2 second
  match r with
  | '.' :: q =>
    match q.takeWhile Char.isDigit with
    | [] => pure (text, r)
    | ds => pure (text ++ fractionText ds, q.dropWhile Char.isDigit)
  | _ => pure (text, r)

/-- The text of an offset of so many minutes.  No minutes at all are ahead, whichever sign
they were given. -/
def offsetText (minutes : Int) : String :=
  let mark := if minutes < 0 then "-" else "+"
  mark ++ padded 2 (minutes.natAbs / 60) ++ ":" ++ padded 2 (minutes.natAbs % 60)

/-- What a text after a time adds to it: an offset, or nothing. -/
def offset? (s : List Char) : Option (String × List Char) :=
  match s with
  | 'Z' :: r | 'z' :: r => some ("Z", r)
  | '+' :: r | '-' :: r => do
    let (hours, r) ← fixed? 2 0 23 r
    let r ← after? ':' r
    let (minutes, r) ← fixed? 2 0 59 r
    let distance : Int := hours * 60 + minutes
    pure (offsetText (if s.head? = some '-' then -distance else distance), r)
  | r => some ("", r)

/-- A date, a time, or a date with a time. -/
def moment? (s : List Char) : Option (String × List Char) :=
  if isDate s then do
    let (date, r) ← date? s
    match r with
    | c :: q =>
      if (c = 'T' ∨ c = 't' ∨ c = ' ') ∧ isTime q then do
        let (time, q) ← time? q
        let (offset, q) ← offset? q
        pure (date ++ "T" ++ time ++ offset, q)
      else pure (date, r)
    | [] => pure (date, r)
  else time? s

/-- Whether a moment begins. -/
def isMoment (s : List Char) : Bool := isDate s || isTime s

end MasterPackage.Toml
