import MasterPackage.Markup.Reference
import MasterPackage.Proofs.Text.Utf8

/-!
# Spelling characters in text

A character of a text stands as it is, unless it would begin markup or a reference, or
as a reference: by one of the five names, or by its number in decimal or hexadecimal
digits, with any zeros in front and in either letter case.  Only the character with
number zero has no reference.
-/

namespace MasterPackage.Markup

/-! ## Glyphs -/

/-- The characters that have a name. -/
inductive Entity where
  | lt
  | gt
  | amp
  | apos
  | quot
  deriving DecidableEq, Repr

namespace Entity

/-- The character of a name. -/
def char : Entity → Char
  | lt => '<'
  | gt => '>'
  | amp => '&'
  | apos => '\''
  | quot => '"'

/-- The name as it is written. -/
def name : Entity → List Char
  | lt => ['l', 't']
  | gt => ['g', 't']
  | amp => ['a', 'm', 'p']
  | apos => ['a', 'p', 'o', 's']
  | quot => ['q', 'u', 'o', 't']

end Entity

/-- A decimal digit. -/
abbrev DecimalDigit := Fin 10

/-- A decimal digit as it is written. -/
def DecimalDigit.char (d : DecimalDigit) : Char := Char.ofNat (0x30 + d.val)

/-- A hexadecimal digit, and whether it is written in upper case. -/
structure HexDigit where
  value : Fin 16
  upper : Bool
  deriving DecidableEq, Repr

/-- A hexadecimal digit as it is written. -/
def HexDigit.char (d : HexDigit) : Char :=
  if d.upper then (Text.Hex.digit d.value.val).toUpper else Text.Hex.digit d.value.val

/-- The number that digits of the given values spell behind the ones read so far. -/
def numeralFrom (base : Nat) : Nat → List Nat → Nat
  | n, [] => n
  | n, d :: ds => numeralFrom base (n * base + d) ds

/-- A reference to a character: by its name, or by its number, which is not zero. -/
inductive CharReference where
  | named (e : Entity)
  | decimal (digits : List DecimalDigit) (c : Char)
    (spells : numeralFrom 10 0 (digits.map (·.val)) = c.toNat) (ne_zero : c.toNat ≠ 0)
  | hexadecimal (digits : List HexDigit) (c : Char)
    (spells : numeralFrom 16 0 (digits.map (·.value.val)) = c.toNat) (ne_zero : c.toNat ≠ 0)

namespace CharReference

/-- The character that is referred to. -/
def char : CharReference → Char
  | named e => e.char
  | decimal _ c _ _ => c
  | hexadecimal _ c _ _ => c

/-- What stands between the ampersand and the semicolon. -/
def body : CharReference → List Char
  | named e => e.name
  | decimal digits _ _ _ => '#' :: digits.map DecimalDigit.char
  | hexadecimal digits _ _ _ => '#' :: 'x' :: digits.map HexDigit.char

end CharReference

/-- One character of a text, as it is written. -/
inductive Glyph where
  | plain (c : Char) (ne_lt : c ≠ '<') (ne_amp : c ≠ '&')
  | reference (r : CharReference)

namespace Glyph

/-- The character that is meant. -/
def char : Glyph → Char
  | plain c _ _ => c
  | reference r => r.char

/-- The glyph as it is written. -/
def raw : Glyph → List Char
  | plain c _ _ => [c]
  | reference r => '&' :: (r.body ++ [';'])

/-- The characters of a text. -/
def chars (run : List Glyph) : List Char := run.map char

/-- A text as it is written. -/
def rawAll (run : List Glyph) : List Char := run.flatMap raw

end Glyph

/-! ## Numbers -/

namespace Reference

theorem le_numeralFrom {base : Nat} (hbase : 0 < base) (n : Nat) (ds : List Nat) :
    n ≤ numeralFrom base n ds := by
  induction ds generalizing n with
  | nil => exact Nat.le_refl n
  | cons d ds ih =>
    have hn : n ≤ n * base + d := Nat.le_add_right_of_le (Nat.le_mul_of_pos_right n hbase)
    exact Nat.le_trans hn (ih _)

/-- Digits are read to the number they spell, if it fits in 32 bits. -/
theorem digitsFrom_eq {δ : Type} {base : Nat} (hbase : 0 < base) {digit? : Char → Option Nat}
    {write : δ → Char} {value : δ → Nat} (hdigit : ∀ d, digit? (write d) = some (value d))
    {n : Nat} {ds : List δ} (fits : numeralFrom base n (ds.map value) < UInt32.size) :
    digitsFrom base digit? n (ds.map write) = .ok (numeralFrom base n (ds.map value)) := by
  induction ds generalizing n with
  | nil => rfl
  | cons d ds ih =>
    have hstep : n * base + value d < UInt32.size :=
      Nat.lt_of_le_of_lt (le_numeralFrom hbase _ (ds.map value)) fits
    rw [List.map_cons, digitsFrom, hdigit]
    simp only [if_neg (Nat.not_le.2 hstep)]
    exact ih fits

/-- A number that is not zero is read from its digits. -/
theorem magnitude_eq {δ : Type} {base : Nat} (hbase : 0 < base) {digit? : Char → Option Nat}
    {write : δ → Char} {value : δ → Nat} (hdigit : ∀ d, digit? (write d) = some (value d))
    (hplus : digit? '+' = none) (hminus : digit? '-' = none) {ds : List δ}
    (fits : numeralFrom base 0 (ds.map value) < UInt32.size)
    (ne_zero : numeralFrom base 0 (ds.map value) ≠ 0) :
    magnitude base digit? (ds.map write) = .ok (numeralFrom base 0 (ds.map value)) := by
  cases ds with
  | nil => exact absurd rfl ne_zero
  | cons d ds =>
    have hsign : ¬(write d = '+' ∨ write d = '-') := by
      intro h
      rcases h with h | h
      · rw [← h, hdigit] at hplus
        cases hplus
      · rw [← h, hdigit] at hminus
        cases hminus
    rw [List.map_cons, magnitude]
    simp only [if_neg hsign]
    exact digitsFrom_eq hbase hdigit fits

theorem toNat_fits (c : Char) : c.toNat < UInt32.size :=
  Nat.lt_trans (Text.Utf8.toNat_lt c) (by decide)

theorem decimalDigit?_char : ∀ d : DecimalDigit, decimalDigit? d.char = some d.val := by decide

theorem value?_char : ∀ d : HexDigit, Text.Hex.value? d.char = some d.value.val := by
  intro h
  rcases h with ⟨value, upper⟩
  revert value upper
  decide

theorem char_ne_x : ∀ d : DecimalDigit, d.char ≠ 'x' := by decide

/-- A decimal number stands for the character with that number. -/
theorem ofNumber_decimal {digits : List DecimalDigit} {c : Char}
    (spells : numeralFrom 10 0 (digits.map (·.val)) = c.toNat) (ne_zero : c.toNat ≠ 0) :
    ofNumber (digits.map DecimalDigit.char) = .ok c := by
  have hread : magnitude 10 decimalDigit? (digits.map DecimalDigit.char) = .ok c.toNat := by
    rw [← spells]
    refine magnitude_eq (by decide) decimalDigit?_char (by decide) (by decide) ?_ ?_
    · exact spells ▸ toNat_fits c
    · exact spells ▸ ne_zero
  have hx : ∀ hex, digits.map DecimalDigit.char = 'x' :: hex → False := by
    intro hex h
    cases digits with
    | nil => cases h
    | cons d ds => exact char_ne_x d (List.cons.inj h).1
  rw [ofNumber, hread]
  · simp only [if_neg ne_zero, Text.Utf8.charOf?_toNat]
  · exact hx

/-- A hexadecimal number stands for the character with that number. -/
theorem ofNumber_hexadecimal {digits : List HexDigit} {c : Char}
    (spells : numeralFrom 16 0 (digits.map (·.value.val)) = c.toNat) (ne_zero : c.toNat ≠ 0) :
    ofNumber ('x' :: digits.map HexDigit.char) = .ok c := by
  have hread : magnitude 16 Text.Hex.value? (digits.map HexDigit.char) = .ok c.toNat := by
    rw [← spells]
    refine magnitude_eq (by decide) value?_char (by decide) (by decide) ?_ ?_
    · exact spells ▸ toNat_fits c
    · exact spells ▸ ne_zero
  rw [ofNumber, hread]
  simp only [if_neg ne_zero, Text.Utf8.charOf?_toNat]

/-! ## References -/

/-- The semicolon behind a name is the first character that ends it. -/
theorem dropWhile_name {name rest : List Char} (free : ∀ d ∈ name, endsName d = false) :
    (name ++ ';' :: rest).dropWhile (fun d => !endsName d) = ';' :: rest := by
  rw [List.dropWhile_append_of_pos (by simpa using free)]
  exact List.dropWhile_cons_of_neg (by decide)

theorem takeWhile_name {name rest : List Char} (free : ∀ d ∈ name, endsName d = false) :
    (name ++ ';' :: rest).takeWhile (fun d => !endsName d) = name := by
  rw [List.takeWhile_append_of_pos (by simpa using free)]
  rw [List.takeWhile_cons_of_neg (by decide), List.append_nil]

/-- A reference between an ampersand and a semicolon stands for its character. -/
theorem expandFrom_reference {name : List Char} {c : Char}
    (free : ∀ d ∈ name, endsName d = false) (resolves : ∀ place, resolve place name = .ok c)
    {rest ds : List Char} {size : Nat} (hrest : ∀ place, expandFrom size place rest = .ok ds)
    (place : Nat) : expandFrom size place ('&' :: (name ++ ';' :: rest)) = .ok (c :: ds) := by
  rw [expandFrom, if_pos rfl]
  split
  · next tail h =>
    rw [dropWhile_name free] at h
    cases h
    simp only [takeWhile_name free, resolves, hrest]
  · next h => exact absurd (dropWhile_name free) (h rest)

end Reference

namespace CharReference

theorem resolve_body (r : CharReference) (place : Nat) :
    Reference.resolve place r.body = .ok r.char := by
  cases r with
  | named e => cases e <;> rfl
  | decimal digits c spells ne_zero =>
    simp only [body, char, Reference.resolve, Reference.ofNumber_decimal spells ne_zero]
    rfl
  | hexadecimal digits c spells ne_zero =>
    simp only [body, char, Reference.resolve, Reference.ofNumber_hexadecimal spells ne_zero]
    rfl

theorem decimal_inside :
    ∀ d : DecimalDigit, Reference.endsName d.char = false ∧ d.char ≠ '<' := by decide

theorem hexadecimal_inside (d : HexDigit) :
    Reference.endsName d.char = false ∧ d.char ≠ '<' := by
  obtain ⟨value, upper⟩ := d
  revert value upper
  decide

/-- No character of a reference ends it, and none begins markup. -/
theorem body_inside (r : CharReference) :
    ∀ d ∈ r.body, Reference.endsName d = false ∧ d ≠ '<' := by
  intro d hd
  cases r with
  | named e =>
    have hname : e.name.all (fun d => !Reference.endsName d && d != '<') = true := by
      cases e <;> rfl
    simpa using List.all_eq_true.1 hname d hd
  | decimal digits c _ _ =>
    rcases List.mem_cons.1 hd with rfl | hd
    · decide
    · obtain ⟨digit, -, rfl⟩ := List.mem_map.1 hd
      exact decimal_inside digit
  | hexadecimal digits c _ _ =>
    rcases List.mem_cons.1 hd with rfl | hd
    · decide
    rcases List.mem_cons.1 hd with rfl | hd
    · decide
    · obtain ⟨digit, -, rfl⟩ := List.mem_map.1 hd
      exact hexadecimal_inside digit

end CharReference

namespace Glyph

/-- Text stands for its characters, however its first one is spelled. -/
theorem expandFrom_raw (g : Glyph) {rest ds : List Char} {size : Nat}
    (hrest : ∀ place, Reference.expandFrom size place rest = .ok ds) (place : Nat) :
    Reference.expandFrom size place (g.raw ++ rest) = .ok (g.char :: ds) := by
  cases g with
  | plain c _ ne_amp =>
    change Reference.expandFrom size place (c :: rest) = _
    rw [Reference.expandFrom, if_neg ne_amp, hrest]
    rfl
  | reference r =>
    rw [raw, List.cons_append, List.append_assoc]
    exact Reference.expandFrom_reference (fun d hd => (r.body_inside d hd).1) r.resolve_body
      hrest place

/-- However the characters of a text are spelled, the text stands for them. -/
theorem expand_rawAll (run : List Glyph) : Reference.expand (rawAll run) = .ok (chars run) := by
  have hfrom (size place : Nat) :
      Reference.expandFrom size place (rawAll run) = .ok (chars run) := by
    induction run generalizing place with
    | nil => simp [rawAll, chars, Reference.expandFrom]
    | cons g run ih => exact expandFrom_raw g ih place
  exact hfrom _ _

/-! ## Runs of text -/

theorem raw_ne_nil (g : Glyph) : g.raw ≠ [] := by
  cases g <;> simp [raw]

theorem rawAll_append (a b : List Glyph) : rawAll (a ++ b) = rawAll a ++ rawAll b := by
  simp [rawAll]

theorem chars_append (a b : List Glyph) : chars (a ++ b) = chars a ++ chars b := by
  simp [chars]

/-- No markup begins in a run of text. -/
theorem ne_lt_of_mem_rawAll {run : List Glyph} {d : Char} (hd : d ∈ rawAll run) : d ≠ '<' := by
  obtain ⟨g, -, hd⟩ := List.mem_flatMap.1 hd
  cases g with
  | plain c ne_lt _ =>
    rw [List.mem_singleton.1 hd]
    exact ne_lt
  | reference r =>
    simp only [raw, List.mem_cons, List.mem_append, List.not_mem_nil, or_false] at hd
    rcases hd with rfl | hd | rfl
    · decide
    · exact (r.body_inside d hd).2
    · decide

end Glyph

end MasterPackage.Markup
