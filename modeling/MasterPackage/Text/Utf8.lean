/-!
# UTF-8

Bytes are decoded one character at a time from the front.  A lead byte fixes how
many continuation bytes follow, and the value they spell must be a character that
needs that many bytes, so every character has one encoding.
-/

namespace MasterPackage.Text.Utf8

/-- The number of bytes a text takes. -/
def width (cs : List Char) : Nat := cs.foldr (fun c n => c.utf8Size + n) 0

/-- The bytes of a text. -/
def encode (cs : List Char) : List UInt8 := cs.flatMap String.utf8EncodeChar

/-- The bytes of a string. -/
def bytes (s : String) : List UInt8 := encode s.toList

/-- What a lead byte announces: the continuation bytes after it, the bits it
carries itself, and the least value that needs an encoding of that length. -/
structure Lead where
  tails : Nat
  bits : Nat
  least : Nat

/-- The reading of a byte as a lead byte. -/
def Lead.of? (b : UInt8) : Option Lead :=
  let n := b.toNat
  if n < 0x80 then some ⟨0, n, 0⟩
  else if n < 0xC0 then none
  else if n < 0xE0 then some ⟨1, n - 0xC0, 0x80⟩
  else if n < 0xF0 then some ⟨2, n - 0xE0, 0x800⟩
  else if n < 0xF8 then some ⟨3, n - 0xF0, 0x10000⟩
  else none

/-- Reads continuation bytes, six bits each, onto the bits read so far. -/
def takeTails : Nat → Nat → List UInt8 → Option (Nat × List UInt8)
  | 0, bits, bs => some (bits, bs)
  | _ + 1, _, [] => none
  | k + 1, bits, b :: bs =>
    if 0x80 ≤ b.toNat ∧ b.toNat < 0xC0 then takeTails k (bits * 64 + (b.toNat - 0x80)) bs else none

/-- The character with a given number, if the number belongs to one. -/
def charOf? (n : Nat) : Option Char :=
  if h : n.isValidChar then some (Char.ofNatAux n h) else none

/-- The character at the front of bytes, with the bytes after it. -/
def decodeFirst? : List UInt8 → Option (Char × List UInt8)
  | [] => none
  | b :: bs =>
    match Lead.of? b with
    | none => none
    | some lead =>
      match takeTails lead.tails lead.bits bs with
      | none => none
      | some (n, rest) =>
        if n < lead.least then none else (charOf? n).map fun c => (c, rest)

theorem takeTails_length {k n m : Nat} {bs rest : List UInt8}
    (h : takeTails k n bs = some (m, rest)) : rest.length ≤ bs.length := by
  induction k generalizing n bs with
  | zero => simp only [takeTails, Option.some.injEq, Prod.mk.injEq] at h; simp [h.2]
  | succ k ih =>
    cases bs with
    | nil => simp [takeTails] at h
    | cons b bs =>
      simp only [takeTails] at h
      split at h
      · have := ih h; simp only [List.length_cons]; omega
      · simp at h

theorem decodeFirst?_length {c : Char} {bs rest : List UInt8}
    (h : decodeFirst? bs = some (c, rest)) : rest.length < bs.length := by
  cases bs with
  | nil => simp [decodeFirst?] at h
  | cons b bs =>
    simp only [decodeFirst?] at h
    split at h
    · simp at h
    · split at h
      · simp at h
      · next ht =>
        split at h
        · simp at h
        · simp only [Option.map_eq_some_iff, Prod.mk.injEq] at h
          obtain ⟨_, _, _, rfl⟩ := h
          have := takeTails_length ht
          simp only [List.length_cons]
          omega

/-- Decodes onto the characters read so far, newest first. -/
def decodeOnto (read : List Char) (bs : List UInt8) : List Char × List UInt8 :=
  match _h : decodeFirst? bs with
  | none => (read.reverse, bs)
  | some (c, rest) => decodeOnto (c :: read) rest
termination_by bs.length
decreasing_by exact decodeFirst?_length _h

/-- The characters that bytes spell, with what is left from the first byte that
starts no well-formed character. -/
def decode (bs : List UInt8) : List Char × List UInt8 := decodeOnto [] bs

/-- The text of well-formed bytes; otherwise the length of the longest well-formed
beginning. -/
def text (bs : List UInt8) : Except Nat (List Char) :=
  match decode bs with
  | (cs, []) => .ok cs
  | (_, rest@(_ :: _)) => .error (bs.length - rest.length)

/-- The byte-order mark. -/
def mark : Char := Char.ofNat 0xFEFF

/-- The bytes of the byte-order mark. -/
def markBytes : List UInt8 := [0xEF, 0xBB, 0xBF]

/-- Bytes without one byte-order mark at their front. -/
def dropMark (bs : List UInt8) : List UInt8 :=
  if markBytes.isPrefixOf bs then bs.drop 3 else bs

theorem width_nil : width [] = 0 := rfl

theorem width_cons (c : Char) (cs : List Char) : width (c :: cs) = c.utf8Size + width cs := rfl

theorem width_append (a b : List Char) : width (a ++ b) = width a + width b := by
  induction a with
  | nil => exact (Nat.zero_add _).symm
  | cons c a ih => rw [List.cons_append, width_cons, width_cons, ih, Nat.add_assoc]

theorem width_eq_length {cs : List Char} (h : ∀ c ∈ cs, c.utf8Size = 1) : width cs = cs.length := by
  induction cs with
  | nil => rfl
  | cons c cs ih =>
    rw [width_cons, h c List.mem_cons_self, ih fun d hd => h d (List.mem_cons_of_mem c hd),
      List.length_cons, Nat.add_comm]

theorem encode_append (a b : List Char) : encode (a ++ b) = encode a ++ encode b := by
  simp [encode]

theorem length_encode (cs : List Char) : (encode cs).length = width cs := by
  induction cs with
  | nil => rfl
  | cons c cs ih => simp_all [encode, width]

theorem mark_encode : encode [mark] = markBytes := by decide

end MasterPackage.Text.Utf8
