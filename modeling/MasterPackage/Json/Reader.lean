import MasterPackage.Json.Numeral
import MasterPackage.Text.Hex
import MasterPackage.Text.Utf8

/-!
# Reading JSON

JSON text is read from the front, and reading stops at the first thing wrong.  What
is wrong is one of three kinds: the text ends too early, it is not JSON, or it is
JSON but not what is wanted at this place.  A value nobody asked for is skipped; it
has to be JSON, but the characters it spells need not exist.
-/

namespace MasterPackage.Json

/-- Why reading stopped. -/
inductive Failure where
  /-- The text ends inside a value, or before one. -/
  | endsEarly
  /-- The text is not JSON, or something follows the value. -/
  | notJson
  /-- The value has the wrong form, lacks a member or is refused. -/
  | unsuitable
  deriving DecidableEq, Repr

/-- The blanks of JSON. -/
def isSpace (c : Char) : Bool := c = ' ' || c = '\n' || c = '\t' || c = '\r'

/-- The text from its first character that is not a blank. -/
def skipSpace (s : List Char) : List Char := s.dropWhile isSpace

/-! ## Strings -/

/-- The number that four hexadecimal digits spell, with the text after them. -/
def fourDigits (s : List Char) : Except Failure (Nat × List Char) :=
  if Text.Utf8.width s < 4 then .error .endsEarly
  else
    match s with
    | a :: b :: c :: d :: r =>
      match Text.Hex.value? a, Text.Hex.value? b, Text.Hex.value? c, Text.Hex.value? d with
      | some a, some b, some c, some d => .ok (((a * 16 + b) * 16 + c) * 16 + d, r)
      | _, _, _, _ => .error .notJson
    | _ => .error .notJson

theorem fourDigits_length {s r : List Char} {n : Nat} (h : fourDigits s = .ok (n, r)) :
    r.length < s.length := by
  simp only [fourDigits] at h
  split at h
  · simp at h
  · split at h
    · split at h
      · simp only [Except.ok.injEq, Prod.mk.injEq] at h
        simp only [← h.2, List.length_cons]
        omega
      · simp at h
    · simp at h

/-- The character that a number escape spells, given the text after its `u`.  Beyond
the basic plane two escapes stand for one character. -/
def numberEscape (s : List Char) : Except Failure (Char × List Char) :=
  match fourDigits s with
  | .error e => .error e
  | .ok (n, r) =>
    if 0xDC00 ≤ n ∧ n ≤ 0xDFFF then .error .notJson
    else if n < 0xD800 ∨ 0xDBFF < n then .ok (Char.ofNat n, r)
    else
      match r with
      | [] => .error .endsEarly
      | ['\\'] => .error .endsEarly
      | '\\' :: 'u' :: r =>
        match fourDigits r with
        | .error e => .error e
        | .ok (m, r) =>
          if 0xDC00 ≤ m ∧ m ≤ 0xDFFF then
            .ok (Char.ofNat ((n - 0xD800) * 0x400 + (m - 0xDC00) + 0x10000), r)
          else .error .notJson
      | _ => .error .notJson

theorem numberEscape_length {s r : List Char} {c : Char} (h : numberEscape s = .ok (c, r)) :
    r.length < s.length := by
  simp only [numberEscape] at h
  split at h
  · simp at h
  · next hf =>
    have h1 := fourDigits_length hf
    split at h
    · simp at h
    · split at h
      · simp only [Except.ok.injEq, Prod.mk.injEq] at h
        rw [← h.2]
        exact h1
      · split at h
        · simp at h
        · simp at h
        · split at h
          · simp at h
          · next hg =>
            have h2 := fourDigits_length hg
            split at h
            · simp only [Except.ok.injEq, Prod.mk.injEq] at h
              rw [← h.2]
              simp only [List.length_cons] at h1
              omega
            · simp at h
        · simp at h

/-- The character that a short escape spells. -/
def shortEscape? (c : Char) : Option Char :=
  if c = '"' then some '"'
  else if c = '\\' then some '\\'
  else if c = '/' then some '/'
  else if c = 'b' then some (Char.ofNat 0x08)
  else if c = 'f' then some (Char.ofNat 0x0C)
  else if c = 'n' then some '\n'
  else if c = 'r' then some '\r'
  else if c = 't' then some '\t'
  else none

/-- The character that an escape spells, given the text after its backslash. -/
def escape (s : List Char) : Except Failure (Char × List Char) :=
  match s with
  | [] => .error .endsEarly
  | c :: r =>
    match shortEscape? c with
    | some d => .ok (d, r)
    | none => if c = 'u' then numberEscape r else .error .notJson

theorem escape_length {s r : List Char} {c : Char} (h : escape s = .ok (c, r)) :
    r.length < s.length := by
  cases s with
  | nil => simp [escape] at h
  | cons d s =>
    simp only [escape] at h
    split at h
    · simp only [Except.ok.injEq, Prod.mk.injEq] at h
      rw [← h.2]
      simp
    · split at h
      · have := numberEscape_length h
        simp only [List.length_cons]
        omega
      · simp at h

/-- The characters of a string up to its closing quote, with the text after that. -/
def stringBody (s : List Char) : Except Failure (List Char × List Char) :=
  match s with
  | [] => .error .endsEarly
  | c :: r =>
    if c = '"' then .ok ([], r)
    else if c = '\\' then
      match _h : escape r with
      | .error e => .error e
      | .ok (d, r') =>
        match stringBody r' with
        | .error e => .error e
        | .ok (cs, rest) => .ok (d :: cs, rest)
    else if c.toNat < 0x20 then .error .notJson
    else
      match stringBody r with
      | .error e => .error e
      | .ok (cs, rest) => .ok (c :: cs, rest)
termination_by s.length
decreasing_by
  · have := escape_length _h
    simp only [List.length_cons]
    omega
  · simp

theorem stringBody_length {s cs r : List Char} (h : stringBody s = .ok (cs, r)) :
    r.length < s.length := by
  fun_induction stringBody s generalizing cs r with
  | case1 => simp at h
  | case2 => simp only [Except.ok.injEq, Prod.mk.injEq] at h; simp [← h.2]
  | case3 => simp at h
  | case4 => simp at h
  | case5 s d t ht cs' rest hb _ ih =>
    simp only [Except.ok.injEq, Prod.mk.injEq] at h
    have h1 := ih hb
    have h2 := escape_length ht
    rw [← h.2]
    simp only [List.length_cons]
    omega
  | case6 => simp at h
  | case7 => simp at h
  | case8 c s _ _ _ cs' rest hb ih =>
    simp only [Except.ok.injEq, Prod.mk.injEq] at h
    have h1 := ih hb
    rw [← h.2]
    simp only [List.length_cons]
    omega

/-- Passes over a string nobody asked for, given the text after its opening quote. -/
def skipString (s : List Char) : Except Failure (List Char) :=
  match s with
  | [] => .error .endsEarly
  | c :: r =>
    if c = '"' then .ok r
    else if c = '\\' then
      match r with
      | [] => .error .endsEarly
      | d :: r =>
        if (shortEscape? d).isSome then skipString r
        else if d = 'u' then
          match _h : fourDigits r with
          | .error e => .error e
          | .ok (_, r') => skipString r'
        else .error .notJson
    else if c.toNat < 0x20 then .error .notJson
    else skipString r
termination_by s.length
decreasing_by
  · simp only [List.length_cons]
    omega
  · have := fourDigits_length _h
    simp only [List.length_cons]
    omega
  · simp only [List.length_cons]
    omega

theorem skipString_length {s r : List Char} (h : skipString s = .ok r) : r.length < s.length := by
  fun_induction skipString s generalizing r with
  | case1 => simp at h
  | case2 => simp only [Except.ok.injEq] at h; simp [← h]
  | case3 => simp at h
  | case4 _ _ _ _ ih => have := ih h; simp only [List.length_cons]; omega
  | case5 => simp at h
  | case6 _ _ _ hf _ _ ih =>
    have h1 := ih h
    have h2 := fourDigits_length hf
    simp only [List.length_cons]
    omega
  | case7 => simp at h
  | case8 => simp at h
  | case9 _ _ _ _ _ ih => have := ih h; simp only [List.length_cons]; omega

/-! ## Numbers and words -/

/-- Splits a text after the digits at its front. -/
def digits (s : List Char) : List Char × List Char :=
  (s.takeWhile Char.isDigit, s.dropWhile Char.isDigit)

/-- Reads an exponent, given the text after its letter. -/
def exponentPart (atEnd : Failure) (s : List Char) : Except Failure (Int × List Char) :=
  let (negative, s) :=
    match s with
    | '-' :: r => (true, r)
    | '+' :: r => (false, r)
    | r => (false, r)
  match digits s with
  | ([], []) => .error atEnd
  | ([], _ :: _) => .error .notJson
  | (ds, r) => .ok (if negative then -(decimal ds : Int) else decimal ds, r)

/-- Reads what may follow the whole part of a number: a fraction, an exponent. -/
def numberTail (atEnd : Failure) (whole s : List Char) : Except Failure (Numeral × List Char) := do
  let (fraction, s) ←
    match s with
    | '.' :: r =>
      match digits r with
      | ([], []) => throw atEnd
      | ([], _ :: _) => throw .notJson
      | (ds, r) => pure (ds, r)
    | r => pure ([], r)
  match s with
  | 'e' :: r | 'E' :: r =>
    let (e, r) ← exponentPart atEnd r
    pure (⟨whole, fraction, e⟩, r)
  | r => pure (⟨whole, fraction, 0⟩, r)

/-- Reads a number without its sign.  A leading zero stands alone; `atEnd` tells what
it means that the text ends where a digit is due. -/
def numeral (atEnd : Failure) (s : List Char) : Except Failure (Numeral × List Char) :=
  match digits s with
  | ([], []) => .error atEnd
  | ([], _ :: _) => .error .notJson
  | ('0' :: _ :: _, _) => .error .notJson
  | (ds, r) => numberTail atEnd ds r

/-- Reads the rest of a word. -/
def word : List Char → List Char → Except Failure (List Char)
  | [], s => .ok s
  | _ :: _, [] => .error .endsEarly
  | w :: ws, c :: s => if c = w then word ws s else .error .notJson

/-! ## Values -/

/-- Why the value at the front of a text is not the string that is wanted there.  A
list or an object is refused at sight; anything else is read first. -/
def refusal (s : List Char) : Failure :=
  let verdict {α : Type} (x : Except Failure α) : Failure :=
    match x with
    | .error e => e
    | .ok _ => .unsuitable
  let ranged (x : Except Failure (Numeral × List Char)) : Failure :=
    match x with
    | .error e => e
    | .ok (n, _) => if n.isTooLarge then .notJson else .unsuitable
  match s with
  | [] => .endsEarly
  | 'n' :: r => verdict (word ['u', 'l', 'l'] r)
  | 't' :: r => verdict (word ['r', 'u', 'e'] r)
  | 'f' :: r => verdict (word ['a', 'l', 's', 'e'] r)
  | '-' :: r => ranged (numeral .endsEarly r)
  | '"' :: r => verdict (stringBody r)
  | '[' :: _ => .unsuitable
  | '\x7b' :: _ => .unsuitable
  | c :: r => if c.isDigit then ranged (numeral .endsEarly (c :: r)) else .notJson

/-- Reads a string where one is wanted. -/
def stringValue (s : List Char) : Except Failure (String × List Char) :=
  match skipSpace s with
  | '"' :: r => (stringBody r).map fun (cs, r) => (String.ofList cs, r)
  | r => .error (refusal r)

/-- What encloses a skipped value. -/
inductive Frame where
  | list
  | object

/-- Reads a member's name and colon, without keeping the name. -/
def skipName (s : List Char) : Except Failure (List Char) :=
  match skipSpace s with
  | [] => .error .endsEarly
  | '"' :: r =>
    match skipString r with
    | .error e => .error e
    | .ok r =>
      match skipSpace r with
      | [] => .error .endsEarly
      | ':' :: r => .ok r
      | _ => .error .notJson
  | _ => .error .notJson

/-- Passes over the scalar at the front of a text. -/
def skipScalar (s : List Char) : Except Failure (List Char) :=
  match s with
  | [] => .error .endsEarly
  | 'n' :: r => word ['u', 'l', 'l'] r
  | 't' :: r => word ['r', 'u', 'e'] r
  | 'f' :: r => word ['a', 'l', 's', 'e'] r
  | '-' :: r => (numeral .notJson r).map Prod.snd
  | '"' :: r => skipString r
  | c :: r => if c.isDigit then (numeral .notJson (c :: r)).map Prod.snd else .error .notJson

mutual

/-- Passes over a value inside the given frames, innermost first, and on to the end of
the outermost one.  The fuel bounds the number of values. -/
def skipIn : Nat → List Frame → List Char → Except Failure (List Char)
  | 0, _, _ => .error .endsEarly
  | fuel + 1, frames, s =>
    match skipSpace s with
    | '[' :: r =>
      match skipSpace r with
      | ']' :: r => skipOn fuel frames r
      | [] => .error .endsEarly
      | r => skipIn fuel (.list :: frames) r
    | '\x7b' :: r =>
      match skipSpace r with
      | '\x7d' :: r => skipOn fuel frames r
      | [] => .error .endsEarly
      | r =>
        match skipName r with
        | .error e => .error e
        | .ok r => skipIn fuel (.object :: frames) r
    | r =>
      match skipScalar r with
      | .error e => .error e
      | .ok r => skipOn fuel frames r

/-- Goes on after a value that stands inside the given frames. -/
def skipOn : Nat → List Frame → List Char → Except Failure (List Char)
  | _, [], s => .ok s
  | 0, _ :: _, _ => .error .endsEarly
  | fuel + 1, frame :: frames, s =>
    match frame, skipSpace s with
    | _, [] => .error .endsEarly
    | .list, ']' :: r => skipOn fuel frames r
    | .object, '\x7d' :: r => skipOn fuel frames r
    | .list, ',' :: r => skipIn fuel (.list :: frames) r
    | .object, ',' :: r =>
      match skipName r with
      | .error e => .error e
      | .ok r => skipIn fuel (.object :: frames) r
    | _, _ :: _ => .error .notJson

end

/-- Passes over the value at the front of a text. -/
def skip (s : List Char) : Except Failure (List Char) := skipIn (2 * s.length + 2) [] s

/-- Accepts what was read if only blanks follow it. -/
def finish {α : Type} (x : α × List Char) : Except Failure α :=
  match skipSpace x.2 with
  | [] => .ok x.1
  | _ :: _ => .error .notJson

end MasterPackage.Json
