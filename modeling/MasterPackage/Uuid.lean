import MasterPackage.Text.Blank
import MasterPackage.Text.Case
import MasterPackage.Text.Hex
import MasterPackage.Text.Quoted
import MasterPackage.Text.Utf8

/-!
# Identifiers

An identifier is sixteen bytes.  Its text is five groups of hexadecimal digits,
eight, four, four, four and twelve of them, with hyphens between; it is written in
lower case, and read in either case, with blanks around it and with or without the
name space in front.  A text that is no identifier is told by the first thing wrong with
it.
-/

namespace MasterPackage

/-- Sixteen bytes. -/
structure Uuid where
  bytes : List UInt8
  length_bytes : bytes.length = 16
  deriving DecidableEq

namespace Uuid

@[ext] theorem ext {a b : Uuid} (h : a.bytes = b.bytes) : a = b := by
  cases a
  cases b
  simp_all

instance : Hashable Uuid := ⟨fun u => hash u.bytes⟩

/-- Identifiers are ordered by their bytes. -/
instance : Ord Uuid := ⟨fun a b => compare a.bytes b.bytes⟩

/-! ## Writing -/

/-- Where the hyphens stand. -/
def hyphenSlots : List Nat := [8, 13, 18, 23]

/-- The digits of sixteen bytes, grouped. -/
def group (ds : List Char) : List Char :=
  ds.take 8 ++ '-' :: (ds.drop 8).take 4 ++ '-' :: (ds.drop 12).take 4 ++
    '-' :: (ds.drop 16).take 4 ++ '-' :: ds.drop 20

/-- The five groups of lower-case digits. -/
def chars (u : Uuid) : List Char := group (u.bytes.flatMap Text.Hex.byteDigits)

/-- The text of an identifier. -/
def text (u : Uuid) : String := String.ofList u.chars

/-- The first eight digits, enough to tell identifiers apart at a glance. -/
def short (u : Uuid) : String := String.ofList (u.chars.take 8)

instance : ToString Uuid := ⟨text⟩

/-! ## Reading -/

/-- Why a text is no identifier. -/
inductive Fault where
  /-- Nothing is left without the blanks and the name space. -/
  | empty
  /-- It does not take the room of five groups with their hyphens. -/
  | layout
  /-- Another character stands where a hyphen belongs. -/
  | separator
  /-- Another character stands where a digit belongs. -/
  | digit
  deriving DecidableEq, Repr

/-- The wording of a fault. -/
def Fault.message : Fault → String
  | empty => "empty"
  | layout => "expected 8-4-4-4-12 hyphenated hex"
  | separator => "expected '-' separator"
  | digit => "non-hex digit"

/-- A text that is no identifier, and why. -/
structure Error where
  input : String
  fault : Fault
  deriving DecidableEq, Repr

/-- The wording of an error. -/
def Error.message (e : Error) : String :=
  "invalid UUID " ++ Text.quoted e.input ++ ": " ++ e.fault.message

/-- The name space that may stand before an identifier. -/
def nameSpace : List Char := ['u', 'r', 'n', ':', 'u', 'u', 'i', 'd', ':']

/-- The text after the name space, if that stands in front in any letter case. -/
def dropNameSpace (s : List Char) : List Char :=
  if Text.sameFolded (s.take 9) nameSpace then s.drop 9 else s

/-- The first fault of a text whose first character stands in the given slot. -/
def slotFault? : Nat → List Char → Option Fault
  | _, [] => none
  | i, c :: cs =>
    if i ∈ hyphenSlots then
      if c = '-' then slotFault? (i + 1) cs else some .separator
    else
      if (Text.Hex.value? c).isSome then slotFault? (i + 1) cs else some .digit

/-- The bytes that pairs of digits spell. -/
def pairUp? : List Char → Option (List UInt8)
  | [] => some []
  | [_] => none
  | a :: b :: cs => do
    let high ← Text.Hex.value? a
    let low ← Text.Hex.value? b
    let bytes ← pairUp? cs
    pure (UInt8.ofNat (high * 16 + low) :: bytes)

/-- The identifier that a text of 36 characters spells: hyphens where they belong and nowhere
else, and pairs of digits between. -/
def ofDigits? (cs : List Char) : Option Uuid :=
  if cs.map (· == '-') = (List.range 36).map (hyphenSlots.contains ·) then
    match pairUp? (cs.filter (· ≠ '-')) with
    | some bytes => if h : bytes.length = 16 then some ⟨bytes, h⟩ else none
    | none => none
  else none

/-- Reads a text, given as its characters. -/
def parseChars (s : List Char) : Except Fault Uuid :=
  let body := dropNameSpace (Text.trim s)
  if body = [] then .error .empty
  else if Text.Utf8.width body ≠ 36 then .error .layout
  else
    match slotFault? 0 body with
    | some f => .error f
    | none =>
      match ofDigits? body with
      | some u => .ok u
      | none => .error .layout

/-- Reads a text. -/
def parse (s : String) : Except Error Uuid := (parseChars s.toList).mapError (Error.mk s)

end Uuid

/-- The identifier of an asset. -/
structure AssetId where
  uuid : Uuid
  deriving DecidableEq

/-- The identifier of a composition. -/
structure CompositionId where
  uuid : Uuid
  deriving DecidableEq

namespace AssetId

instance : Hashable AssetId := ⟨fun i => hash i.uuid⟩

instance : Ord AssetId := ⟨fun a b => compare a.uuid b.uuid⟩

/-- The text of an asset's identifier. -/
def text (i : AssetId) : String := i.uuid.text

instance : ToString AssetId := ⟨text⟩

/-- The first eight digits. -/
def short (i : AssetId) : String := i.uuid.short

/-- The identifier with its kind, for diagnosis. -/
def described (i : AssetId) : String := "AssetId(" ++ i.text ++ ")"

/-- Reads the text of an asset's identifier. -/
def parse (s : String) : Except Uuid.Error AssetId := (Uuid.parse s).map AssetId.mk

end AssetId

namespace CompositionId

instance : Ord CompositionId := ⟨fun a b => compare a.uuid b.uuid⟩

/-- The text of a composition's identifier. -/
def text (i : CompositionId) : String := i.uuid.text

instance : ToString CompositionId := ⟨text⟩

/-- The first eight digits. -/
def short (i : CompositionId) : String := i.uuid.short

/-- The identifier with its kind, for diagnosis. -/
def described (i : CompositionId) : String := "CompositionId(" ++ i.text ++ ")"

/-- A composition is an asset of its package, under the same bytes. -/
def asset (i : CompositionId) : AssetId := ⟨i.uuid⟩

/-- Reads the text of a composition's identifier. -/
def parse (s : String) : Except Uuid.Error CompositionId := (Uuid.parse s).map CompositionId.mk

end CompositionId

end MasterPackage
