import MasterPackage.Proofs.Text.Case
import MasterPackage.Proofs.Text.Utf8
import Mathlib.Data.List.Basic
import Mathlib.Data.List.Induction

/-!
# ASCII among the bytes of a text

A character up to U+007F is one byte, and no byte of another character has its value.  So
what is looked for by such bytes is found where the characters are, and a text that is cut
there is cut between two characters.
-/

namespace MasterPackage.Text.Utf8

/-- Whether a character is one of ASCII. -/
def IsAscii (c : Char) : Prop := c.toNat < 0x80

instance (c : Char) : Decidable (IsAscii c) := inferInstanceAs (Decidable (c.toNat < 0x80))

/-- Whether a byte belongs to a character beyond ASCII. -/
def IsHigh (b : UInt8) : Prop := 0x80 ≤ b.toNat

/-- The byte of a character of ASCII. -/
def byte (c : Char) : UInt8 := UInt8.ofNat c.toNat

variable {c d : Char}

theorem toNat_byte (h : IsAscii c) : (byte c).toNat = c.toNat :=
  toNat_ofNat_of_lt (Nat.lt_trans h (by decide))

theorem utf8EncodeChar_of_isAscii (h : IsAscii c) : String.utf8EncodeChar c = [byte c] := by
  have hval : c.val.toNat ≤ 0x7F := Nat.le_of_lt_succ h
  rw [String.utf8EncodeChar, if_pos hval]
  rfl

theorem isHigh_ofNat {n k : Nat} (hlow : 0x80 ≤ k) (hfit : n + k < 256) :
    IsHigh (UInt8.ofNat (n + k)) := by
  rw [IsHigh, toNat_ofNat_of_lt hfit]
  omega

/-- The bytes of a character beyond ASCII are all high. -/
theorem isHigh_of_mem (h : ¬IsAscii c) {b : UInt8} (hb : b ∈ String.utf8EncodeChar c) :
    IsHigh b := by
  have hval : ¬c.val.toNat ≤ 0x7F := fun hle => h (Nat.lt_succ_of_le hle)
  have low (v : Nat) : IsHigh (UInt8.ofNat (v % 0x40 + 0x80)) :=
    isHigh_ofNat (Nat.le_refl _) (by omega)
  rw [String.utf8EncodeChar, if_neg hval] at hb
  split at hb
  · simp only [List.mem_cons, List.not_mem_nil, or_false] at hb
    rcases hb with rfl | rfl
    · exact isHigh_ofNat (by decide) (by omega)
    · exact low _
  split at hb
  · simp only [List.mem_cons, List.not_mem_nil, or_false] at hb
    rcases hb with rfl | rfl | rfl
    · exact isHigh_ofNat (by decide) (by omega)
    · exact low _
    · exact low _
  · simp only [List.mem_cons, List.not_mem_nil, or_false] at hb
    rcases hb with rfl | rfl | rfl | rfl
    · exact isHigh_ofNat (by decide) (by omega)
    · exact low _
    · exact low _
    · exact low _

theorem utf8EncodeChar_ne_nil (c : Char) : String.utf8EncodeChar c ≠ [] := by
  intro h
  have hlength := String.length_utf8EncodeChar c
  rw [h] at hlength
  exact absurd hlength (Nat.ne_of_lt c.utf8Size_pos)

theorem encode_eq_nil_iff {s : List Char} : encode s = [] ↔ s = [] := by
  constructor
  · intro h
    cases s with
    | nil => rfl
    | cons c s => exact absurd (List.append_eq_nil_iff.1 h).1 (utf8EncodeChar_ne_nil c)
  · rintro rfl
    rfl

theorem encode_cons_of_isAscii (h : IsAscii c) (s : List Char) :
    encode (c :: s) = byte c :: encode s := by
  rw [encode_cons, utf8EncodeChar_of_isAscii h]
  rfl

theorem byte_injective (hc : IsAscii c) (hd : IsAscii d) (h : byte c = byte d) : c = d := by
  have hvalue := congrArg UInt8.toNat h
  rw [toNat_byte hc, toNat_byte hd] at hvalue
  rw [← Char.ofNat_toNat c, hvalue, Char.ofNat_toNat]

theorem byte_eq_iff (hc : IsAscii c) (hd : IsAscii d) : byte c = byte d ↔ c = d :=
  ⟨byte_injective hc hd, congrArg byte⟩

theorem IsHigh.ne_byte {b : UInt8} (h : IsHigh b) (hc : IsAscii c) : b ≠ byte c := by
  rintro rfl
  rw [IsHigh, toNat_byte hc] at h
  exact absurd hc (Nat.not_lt.2 h)

/-- The bytes of a text begin with those of another where the text begins with it. -/
theorem isPrefixOf_encode (m s : List Char) :
    (encode m).isPrefixOf (encode s) = m.isPrefixOf s := by
  rw [Bool.eq_iff_iff, List.isPrefixOf_iff_prefix, List.isPrefixOf_iff_prefix]
  constructor
  · exact isPrefix_of_encode
  · rintro ⟨more, rfl⟩
    rw [encode_append]
    exact List.prefix_append _ _

/-! ## Passing over bytes -/

/-- A test of characters and a test of bytes say the same of ASCII, and everything else
passes both. -/
structure Agree (p : Char → Bool) (q : UInt8 → Bool) : Prop where
  ascii : ∀ c, IsAscii c → q (byte c) = p c
  other : ∀ c, ¬IsAscii c → p c = true
  high : ∀ b, IsHigh b → q b = true

theorem agree_ne (hd : IsAscii d) : Agree (· != d) (· != byte d) := by
  constructor
  · intro c hc
    rw [Bool.eq_iff_iff, bne_iff_ne, bne_iff_ne]
    exact not_congr (byte_eq_iff hc hd)
  · intro c hc
    rw [bne_iff_ne]
    rintro rfl
    exact hc hd
  · intro b hb
    rw [bne_iff_ne]
    exact hb.ne_byte hd

theorem Agree.and {p p' : Char → Bool} {q q' : UInt8 → Bool} (h : Agree p q) (h' : Agree p' q') :
    Agree (fun c => p c && p' c) (fun b => q b && q' b) := by
  constructor
  · intro c hc
    rw [h.ascii c hc, h'.ascii c hc]
  · intro c hc
    rw [h.other c hc, h'.other c hc, Bool.and_self]
  · intro b hb
    rw [h.high b hb, h'.high b hb, Bool.and_self]

variable {p : Char → Bool} {q : UInt8 → Bool}

theorem Agree.of_mem (h : Agree p q) (hc : ¬IsAscii c) {b : UInt8}
    (hb : b ∈ String.utf8EncodeChar c) : q b = true :=
  h.high b (isHigh_of_mem hc hb)

theorem takeWhile_encode (h : Agree p q) (s : List Char) :
    (encode s).takeWhile q = encode (s.takeWhile p) := by
  induction s with
  | nil => rfl
  | cons c s ih =>
    by_cases hc : IsAscii c
    · rw [encode_cons_of_isAscii hc, List.takeWhile_cons, List.takeWhile_cons, h.ascii c hc, ih]
      split
      · rw [encode_cons_of_isAscii hc]
      · rfl
    · rw [encode_cons, List.takeWhile_append_of_pos fun b hb => h.of_mem hc hb, ih,
        List.takeWhile_cons_of_pos (h.other c hc), encode_cons]

theorem dropWhile_encode (h : Agree p q) (s : List Char) :
    (encode s).dropWhile q = encode (s.dropWhile p) := by
  have hboth := List.takeWhile_append_dropWhile (p := q) (l := encode s)
  rw [takeWhile_encode h] at hboth
  have hchars := congrArg encode (List.takeWhile_append_dropWhile (p := p) (l := s))
  rw [encode_append, ← hboth] at hchars
  exact (List.append_cancel_left hchars).symm

theorem encode_concat (s : List Char) (c : Char) :
    encode (s ++ [c]) = encode s ++ String.utf8EncodeChar c := by
  rw [encode_append, encode_cons, show encode [] = [] from rfl, List.append_nil]

/-- Bytes that fail a test are passed over from the end as far as characters are. -/
theorem reverse_dropWhile_encode (h : Agree p q) (s : List Char) :
    (encode s).reverse.dropWhile (fun b => !q b) =
      (encode (s.reverse.dropWhile fun c => !p c).reverse).reverse := by
  induction s using List.reverseRecOn with
  | nil => rfl
  | append_singleton s c ih =>
    have hstay : (fun c => !p c) c = false →
        ((s ++ [c]).reverse.dropWhile fun c => !p c).reverse = s ++ [c] := by
      intro hp
      rw [List.reverse_append, List.reverse_singleton, List.singleton_append,
        List.dropWhile_cons_of_neg (by simpa using hp), List.reverse_cons, List.reverse_reverse]
    by_cases hc : IsAscii c
    · have hone : (encode (s ++ [c])).reverse = byte c :: (encode s).reverse := by
        rw [encode_concat, utf8EncodeChar_of_isAscii hc, List.reverse_append]
        rfl
      cases hp : p c with
      | true =>
        rw [hstay (by simp [hp]), hone, List.dropWhile_cons_of_neg]
        rw [h.ascii c hc, hp]
        decide
      | false =>
        rw [hone, List.dropWhile_cons_of_pos (by rw [h.ascii c hc, hp]; rfl), ih,
          List.reverse_append, List.reverse_singleton, List.singleton_append,
          List.dropWhile_cons_of_pos (by rw [hp]; rfl)]
    · rw [hstay (by simp [h.other c hc]), encode_concat, List.reverse_append]
      rcases List.exists_cons_of_ne_nil
        (fun hnil => utf8EncodeChar_ne_nil c (List.reverse_eq_nil_iff.1 hnil)) with ⟨b, more, hrev⟩
      have hb : b ∈ String.utf8EncodeChar c := by
        rw [← List.mem_reverse, hrev]
        exact List.mem_cons_self
      rw [hrev, List.cons_append, List.dropWhile_cons_of_neg]
      rw [h.of_mem hc hb]
      decide

/-- A text ends with a character of ASCII where its bytes end with the byte of it. -/
theorem getLast?_encode (hd : IsAscii d) (s : List Char) :
    (encode s).getLast? = some (byte d) ↔ s.getLast? = some d := by
  induction s using List.reverseRecOn with
  | nil => exact ⟨nofun, nofun⟩
  | append_singleton s c ih =>
    rw [List.getLast?_concat, encode_concat]
    by_cases hc : IsAscii c
    · rw [utf8EncodeChar_of_isAscii hc, List.getLast?_concat, Option.some.injEq, Option.some.injEq]
      exact byte_eq_iff hc hd
    · constructor
      · intro h
        rw [List.getLast?_append_of_ne_nil _ (utf8EncodeChar_ne_nil c)] at h
        exact absurd rfl ((isHigh_of_mem hc (List.mem_of_getLast? h)).ne_byte hd)
      · intro h
        exact absurd hd (Option.some.inj h ▸ hc)

theorem dropLast_encode (hd : IsAscii d) {s : List Char} (h : s.getLast? = some d) :
    (encode s).dropLast = encode s.dropLast := by
  rcases List.getLast?_eq_some_iff.1 h with ⟨front, rfl⟩
  rw [encode_concat, utf8EncodeChar_of_isAscii hd, List.dropLast_concat, List.dropLast_concat]

theorem length_encode_of_isAscii {m : List Char} (hm : ∀ c ∈ m, IsAscii c) :
    (encode m).length = m.length := by
  rw [length_encode, width_eq_length]
  intro c hc
  rw [← String.length_utf8EncodeChar, utf8EncodeChar_of_isAscii (hm c hc)]
  rfl

/-- What stands behind a text of ASCII characters among bytes. -/
theorem drop_encode_of_isPrefix {m s : List Char} (hm : ∀ c ∈ m, IsAscii c)
    (h : m <+: s) : (encode s).drop m.length = encode (s.drop m.length) := by
  rcases h with ⟨more, rfl⟩
  rw [List.drop_left, encode_append, ← length_encode_of_isAscii hm, List.drop_left]

/-- No byte passes a test where no character does. -/
theorem all_not_encode (h : Agree p q) (s : List Char) :
    (encode s).all (fun b => !q b) = s.all fun c => !p c := by
  induction s with
  | nil => rfl
  | cons c s ih =>
    by_cases hc : IsAscii c
    · rw [encode_cons_of_isAscii hc, List.all_cons, List.all_cons, h.ascii c hc, ih]
    · rcases List.exists_cons_of_ne_nil (utf8EncodeChar_ne_nil c) with ⟨b, more, hbytes⟩
      have hb : q b = true := h.of_mem hc (hbytes ▸ List.mem_cons_self)
      rw [encode_cons, hbytes, List.cons_append, List.all_cons, List.all_cons, hb, h.other c hc]
      rfl

/-! ## Letter case of bytes -/

/-- A byte in lower case, if it is the byte of an ASCII letter. -/
def lowerByte (b : UInt8) : UInt8 :=
  if 0x41 ≤ b.toNat ∧ b.toNat ≤ 0x5A then UInt8.ofNat (b.toNat + 0x20) else b

theorem isAscii_toLower : IsAscii c.toLower ↔ IsAscii c := by
  have h := toNat_toLower c
  unfold IsAscii
  split at h <;> omega

theorem lowerByte_byte (hc : IsAscii c) : lowerByte (byte c) = byte c.toLower := by
  rw [lowerByte, toNat_byte hc, byte, byte, toNat_toLower c]
  split <;> rfl

theorem lowerByte_of_isHigh {b : UInt8} (hb : IsHigh b) : lowerByte b = b := by
  unfold IsHigh at hb
  rw [lowerByte, if_neg (by omega)]

/-- Bytes begin with an ASCII word up to case where the characters do. -/
theorem take_encode_sameFolded {m : List Char} (hm : ∀ c ∈ m, IsAscii c) (s : List Char) :
    ((encode s).take m.length).map lowerByte = (encode m).map lowerByte ↔
      sameFolded (s.take m.length) m = true := by
  rw [sameFolded_iff]
  induction m generalizing s with
  | nil => simp [encode]
  | cons d m ih =>
    have hd := hm d List.mem_cons_self
    have ihs := ih fun c hc => hm c (List.mem_cons_of_mem d hc)
    cases s with
    | nil =>
      rw [encode_cons_of_isAscii hd]
      exact iff_of_false (List.cons_ne_nil _ _).symm (List.cons_ne_nil _ _).symm
    | cons c s =>
      by_cases hc : IsAscii c
      · rw [encode_cons_of_isAscii hc, encode_cons_of_isAscii hd, List.length_cons,
          List.take_succ_cons, List.take_succ_cons, List.map_cons, List.map_cons, List.map_cons,
          List.map_cons, List.cons.injEq, List.cons.injEq, ihs s, lowerByte_byte hc,
          lowerByte_byte hd, byte_eq_iff (isAscii_toLower.2 hc) (isAscii_toLower.2 hd)]
      · rcases List.exists_cons_of_ne_nil (utf8EncodeChar_ne_nil c) with ⟨b, more, hbytes⟩
        have hb : IsHigh b := isHigh_of_mem hc (hbytes ▸ List.mem_cons_self)
        rw [encode_cons, hbytes, encode_cons_of_isAscii hd, List.length_cons, List.cons_append,
          List.take_succ_cons, List.take_succ_cons, List.map_cons, List.map_cons, List.map_cons,
          List.map_cons, List.cons.injEq, List.cons.injEq, lowerByte_of_isHigh hb,
          lowerByte_byte hd]
        constructor
        · rintro ⟨hbyte, -⟩
          exact absurd hbyte (hb.ne_byte (isAscii_toLower.2 hd))
        · rintro ⟨hchar, -⟩
          exact absurd (isAscii_toLower.1 (hchar ▸ isAscii_toLower.2 hd)) hc

end MasterPackage.Text.Utf8
