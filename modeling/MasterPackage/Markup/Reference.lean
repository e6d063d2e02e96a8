import MasterPackage.Text.Hex
import MasterPackage.Text.Utf8

/-!
# Character references

In the text of a document an ampersand begins a reference, which ends with the next
semicolon: one of the five names, or a number sign with a decimal number, or with an
`x` and a hexadecimal one.  A reference stands for one character.
-/

namespace MasterPackage.Markup.Reference

/-- Why the number of a reference is no character. -/
inductive NumberFault where
  | signed
  | noDigits
  | badDigit
  | tooLarge
  | zero
  | noCharacter (n : Nat)
  deriving DecidableEq, Repr

/-- The wording of a fault in a number. -/
def NumberFault.message : NumberFault → String
  | signed => "unexpected number sign"
  | noDigits => "cannot parse integer from empty string"
  | badDigit => "invalid digit found in string"
  | tooLarge => "number too large to fit in target type"
  | zero => "0x0 character is not permitted in XML"
  | noCharacter n => "`" ++ toString n ++ "` is not a valid codepoint"

/-- Why a text cannot be read.  Places are byte offsets in that text. -/
inductive Fault where
  /-- No semicolon comes before the next ampersand; the second place is the end. -/
  | unterminated (start stop : Nat)
  /-- The name between the places is none of the five. -/
  | unknown (start stop : Nat) (name : String)
  | number (fault : NumberFault)
  deriving DecidableEq, Repr

/-- The wording of a fault. -/
def Fault.message : Fault → String
  | unterminated start stop =>
    "Error while escaping character at range " ++ toString start ++ ".." ++ toString stop ++
      ": Cannot find ';' after '&'"
  | unknown start stop name =>
    "at " ++ toString start ++ ".." ++ toString stop ++ ": unrecognized entity `" ++ name ++ "`"
  | number fault => "invalid character reference: " ++ fault.message

/-- The value of a decimal digit. -/
def decimalDigit? (c : Char) : Option Nat := if c.isDigit then some (c.toNat - 0x30) else none

/-- The number that digits spell after those read so far; it has to fit in 32 bits. -/
def digitsFrom (base : Nat) (digit? : Char → Option Nat) : Nat → List Char → Except NumberFault Nat
  | n, [] => .ok n
  | n, c :: cs =>
    match digit? c with
    | none => .error .badDigit
    | some d =>
      if UInt32.size ≤ n * base + d then .error .tooLarge
      else digitsFrom base digit? (n * base + d) cs

/-- The number that a text spells in the given base. -/
def magnitude (base : Nat) (digit? : Char → Option Nat) (cs : List Char) : Except NumberFault Nat :=
  match cs with
  | [] => .error .noDigits
  | c :: _ => if c = '+' ∨ c = '-' then .error .signed else digitsFrom base digit? 0 cs

/-- The character that a numeric reference stands for, given the text after its
number sign. -/
def ofNumber (cs : List Char) : Except NumberFault Char :=
  let value :=
    match cs with
    | 'x' :: hex => magnitude 16 Text.Hex.value? hex
    | _ => magnitude 10 decimalDigit? cs
  match value with
  | .error f => .error f
  | .ok n =>
    if n = 0 then .error .zero
    else
      match Text.Utf8.charOf? n with
      | some c => .ok c
      | none => .error (.noCharacter n)

/-- The characters that have a name. -/
def named : List (List Char × Char) :=
  [(['l', 't'], '<'), (['g', 't'], '>'), (['a', 'm', 'p'], '&'), (['a', 'p', 'o', 's'], '\''),
    (['q', 'u', 'o', 't'], '"')]

/-- The character that the reference between an ampersand and a semicolon stands for;
`place` is where it begins. -/
def resolve (place : Nat) (cs : List Char) : Except Fault Char :=
  match cs with
  | '#' :: number => (ofNumber number).mapError .number
  | _ =>
    match named.lookup cs with
    | some c => .ok c
    | none => .error (.unknown place (place + Text.Utf8.width cs) (String.ofList cs))

/-- Characters that may not stand inside a reference. -/
def endsName (c : Char) : Bool := c == '&' || c == ';'

/-- The text that a text with references stands for.  `size` is the number of bytes of
the whole and `place` the offset of this part of it. -/
def expandFrom (size place : Nat) (s : List Char) : Except Fault (List Char) :=
  match s with
  | [] => .ok []
  | c :: r =>
    if c = '&' then
      match _h : r.dropWhile fun c => !endsName c with
      | ';' :: rest =>
        let name := r.takeWhile fun c => !endsName c
        match resolve (place + 1) name with
        | .error f => .error f
        | .ok d =>
          match expandFrom size (place + Text.Utf8.width name + 2) rest with
          | .error f => .error f
          | .ok ds => .ok (d :: ds)
      | _ => .error (.unterminated place size)
    else
      match expandFrom size (place + c.utf8Size) r with
      | .error f => .error f
      | .ok ds => .ok (c :: ds)
termination_by s.length
decreasing_by
  · have := (List.dropWhile_suffix (l := r) fun c => !endsName c).length_le
    rw [_h] at this
    simp only [List.length_cons] at this ⊢
    omega
  · simp

/-- The text that a text with references stands for. -/
def expand (s : List Char) : Except Fault (List Char) := expandFrom (Text.Utf8.width s) 0 s

theorem expandFrom_eq_self {s : List Char} (h : '&' ∉ s) (size place : Nat) :
    expandFrom size place s = .ok s := by
  induction s generalizing place with
  | nil => simp [expandFrom]
  | cons c s ih =>
    simp only [List.mem_cons, not_or] at h
    rw [expandFrom, if_neg (Ne.symm h.1), ih h.2]

theorem expand_eq_self {s : List Char} (h : '&' ∉ s) : expand s = .ok s :=
  expandFrom_eq_self h _ _

end MasterPackage.Markup.Reference
