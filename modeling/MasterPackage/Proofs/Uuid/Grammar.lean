import MasterPackage.Proofs.Uuid

/-!
# The texts of identifiers

A text is read as an identifier exactly if, without the blanks around it and without the
name space in front, it is thirty-six characters long, with hyphens in their slots and
hexadecimal digits everywhere else.  The bytes are then what the pairs of digits spell, and
the identifier is written as the same text in lower case.  So only the spellings of an
identifier are read as it, and every spelling is.
-/

namespace MasterPackage

namespace Text

/-- The digits of hexadecimal numbers, in either case. -/
def isHexDigit (c : Char) : Bool :=
  ('0' ≤ c && c ≤ '9') || ('a' ≤ c && c ≤ 'f') || ('A' ≤ c && c ≤ 'F')

theorem Hex.isSome_value?_iff {c : Char} : (value? c).isSome = true ↔ isHexDigit c = true := by
  have hle (a b : Char) : a ≤ b ↔ a.toNat ≤ b.toNat := Iff.rfl
  have hbounds : '0'.toNat = 0x30 ∧ '9'.toNat = 0x39 ∧ 'a'.toNat = 0x61 ∧ 'f'.toNat = 0x66 ∧
      'A'.toNat = 0x41 ∧ 'F'.toNat = 0x46 := by decide
  simp only [isHexDigit, Bool.or_eq_true, Bool.and_eq_true, decide_eq_true_eq, hle, hbounds, value?]
  split
  · simp_all
  split
  · simp_all
  split
  · simp_all
  · simp_all

theorem Hex.toNat_digit : ∀ n < 16, (digit n).toNat = if n < 10 then 0x30 + n else 0x57 + n := by
  decide

theorem Hex.toLower_digit : ∀ n < 16, (digit n).toLower = digit n := by decide

/-- Every digit of a value is written as the digit of that value once it is in lower case. -/
theorem Hex.digit_of_value? {c : Char} {n : Nat} (h : value? c = some n) : digit n = c.toLower := by
  have hdigit := toNat_digit n (lt_of_value? h)
  have hlower := toNat_toLower c
  rw [← Char.toNat_inj, hdigit, hlower]
  simp only [value?] at h
  split at h
  · have hn := Option.some.inj h
    rw [if_pos (by omega), if_neg (by omega)]
    omega
  split at h
  · have hn := Option.some.inj h
    rw [if_neg (by omega), if_neg (by omega)]
    omega
  split at h
  · have hn := Option.some.inj h
    rw [if_neg (by omega), if_pos (by omega)]
    omega
  · cases h

theorem toLower_toLower (c : Char) : c.toLower.toLower = c.toLower := by
  have honce := toNat_toLower c
  have hrange : ¬(0x41 ≤ c.toLower.toNat ∧ c.toLower.toNat ≤ 0x5A) := by
    split at honce <;> omega
  rw [← Char.toNat_inj, toNat_toLower c.toLower, if_neg hrange]

/-! ## Cutting at a byte -/

/-- The text before and after a number of bytes.  There is none if a character would have
to be cut, or if the text is too short. -/
def Utf8.cutAt? : Nat → List Char → Option (List Char × List Char)
  | 0, s => some ([], s)
  | _ + 1, [] => none
  | n + 1, c :: s =>
    if c.utf8Size ≤ n + 1 then (cutAt? (n + 1 - c.utf8Size) s).map fun (a, b) => (c :: a, b)
    else none

theorem Utf8.cutAt?_width (a b : List Char) : cutAt? (width a) (a ++ b) = some (a, b) := by
  induction a with
  | nil => rw [width_nil, List.nil_append, cutAt?]
  | cons c a ih =>
    have hc : 0 < c.utf8Size := c.utf8Size_pos
    obtain ⟨n, hn⟩ : ∃ n, c.utf8Size + width a = n + 1 := ⟨c.utf8Size + width a - 1, by omega⟩
    have hrest : n + 1 - c.utf8Size = width a := by omega
    rw [width_cons, hn, List.cons_append, cutAt?, if_pos (by omega), hrest, ih]
    rfl

theorem Utf8.eq_of_cutAt? {n : Nat} {s a b : List Char} (h : cutAt? n s = some (a, b)) :
    s = a ++ b ∧ width a = n := by
  fun_induction cutAt? n s generalizing a with
  | case1 s =>
    cases h
    exact ⟨rfl, rfl⟩
  | case2 => cases h
  | case3 n c s hc ih =>
    rcases Option.map_eq_some_iff.1 h with ⟨⟨a', b'⟩, hcut, heq⟩
    cases heq
    rcases ih hcut with ⟨hs, hwidth⟩
    refine ⟨by rw [hs, List.cons_append], ?_⟩
    rw [width_cons, hwidth]
    omega
  | case4 => cases h

end Text

namespace Uuid

/-! ## Groups of digits -/

/-- A text of thirty-six characters, with hyphens in their slots and digits in all others. -/
def Hyphenated (s : List Char) : Prop :=
  s.length = 36 ∧
    ∀ i (h : i < s.length),
      if i = 8 ∨ i = 13 ∨ i = 18 ∨ i = 23 then s[i] = '-' else Text.isHexDigit s[i] = true

theorem slotFault?_eq_none_iff {i : Nat} {s : List Char} :
    slotFault? i s = none ↔
      ∀ j (h : j < s.length),
        if i + j ∈ hyphenSlots then s[j] = '-' else Text.isHexDigit s[j] = true := by
  induction s generalizing i with
  | nil => simp [slotFault?]
  | cons c s ih =>
    have hslot (j : Nat) : i + 1 + j = i + (j + 1) := by omega
    have hsplit : (∀ j (h : j < (c :: s).length), if i + j ∈ hyphenSlots then (c :: s)[j] = '-'
        else Text.isHexDigit (c :: s)[j] = true) ↔
        (if i ∈ hyphenSlots then c = '-' else Text.isHexDigit c = true) ∧
          slotFault? (i + 1) s = none := by
      rw [ih]
      simp only [hslot]
      constructor
      · intro h
        exact ⟨h 0 (Nat.succ_pos _), fun j hj => h (j + 1) (Nat.succ_lt_succ hj)⟩
      · intro h j hj
        cases j with
        | zero => exact h.1
        | succ j => exact h.2 j (Nat.lt_of_succ_lt_succ hj)
    rw [hsplit, slotFault?, ← Text.Hex.isSome_value?_iff]
    split
    · split <;> simp_all
    · split <;> simp_all

/-- A text of thirty-six bytes without fault is hyphenated. -/
theorem hyphenated_iff {s : List Char} :
    Hyphenated s ↔ Text.Utf8.width s = 36 ∧ slotFault? 0 s = none := by
  have hslots (i : Nat) : i ∈ hyphenSlots ↔ i = 8 ∨ i = 13 ∨ i = 18 ∨ i = 23 := by
    simp [hyphenSlots]
  rw [slotFault?_eq_none_iff]
  simp only [Nat.zero_add, hslots]
  have hwidth (h : ∀ i (h : i < s.length), if i = 8 ∨ i = 13 ∨ i = 18 ∨ i = 23 then s[i] = '-'
      else Text.isHexDigit s[i] = true) : Text.Utf8.width s = s.length := by
    apply Text.Utf8.width_eq_length
    intro c hc
    obtain ⟨i, hi, rfl⟩ := List.mem_iff_getElem.1 hc
    have hslot := h i hi
    split at hslot
    · rw [hslot]
      rfl
    · exact (plain_of_isSome_value? (Text.Hex.isSome_value?_iff.2 hslot)).2.2
  constructor
  · intro h
    exact ⟨(hwidth h.2).trans h.1, h.2⟩
  · intro h
    exact ⟨(hwidth h.2).symm.trans h.1, h.2⟩

theorem group_append {a b c d : List Char} (ha : a.length = 8) (hb : b.length = 4)
    (hc : c.length = 4) (hd : d.length = 4) (e : List Char) :
    group (a ++ (b ++ (c ++ (d ++ e)))) =
      a ++ '-' :: (b ++ '-' :: (c ++ '-' :: (d ++ '-' :: e))) := by
  simp [group, List.drop_append, List.drop_eq_nil_of_le, ha, hb, hc, hd]

theorem drop_of_hyphen {s : List Char} {n : Nat} (h : s[n]? = some '-') :
    s.drop n = '-' :: s.drop (n + 1) := by
  obtain ⟨hn, hs⟩ := List.getElem?_eq_some_iff.1 h
  rw [List.drop_eq_getElem_cons hn, hs]

/-- A hyphenated text is made of groups of digits. -/
theorem Hyphenated.exists_group {s : List Char} (h : Hyphenated s) :
    ∃ ds, s = group ds ∧ ds.length = 32 ∧ ∀ d ∈ ds, Text.isHexDigit d = true := by
  rcases h with ⟨hlength, hslots⟩
  have hhyphen {i : Nat} (hi : i = 8 ∨ i = 13 ∨ i = 18 ∨ i = 23) : s[i]? = some '-' := by
    have hlt : i < s.length := by omega
    have hslot := hslots i hlt
    rw [if_pos hi] at hslot
    rw [List.getElem?_eq_getElem hlt, hslot]
  have hdigits {i n : Nat} (hout : ∀ j, i ≤ j → j < i + n → ¬(j = 8 ∨ j = 13 ∨ j = 18 ∨ j = 23)) :
      ∀ d ∈ (s.drop i).take n, Text.isHexDigit d = true := by
    intro d hd
    obtain ⟨j, hj, rfl⟩ := List.mem_iff_getElem.1 hd
    rw [List.length_take, List.length_drop] at hj
    have hslot := hslots (i + j) (by omega)
    rw [if_neg (hout (i + j) (by omega) (by omega))] at hslot
    simpa using hslot
  have hfour {i : Nat} (hi : i + 4 ≤ 36) : ((s.drop i).take 4).length = 4 := by
    rw [List.length_take, List.length_drop]
    omega
  have height : (s.take 8).length = 8 := by
    rw [List.length_take]
    omega
  have hsplit (i : Nat) : s.drop i = (s.drop i).take 4 ++ s.drop (i + 4) := by
    rw [← List.drop_drop, List.take_append_drop]
  refine ⟨s.take 8 ++ ((s.drop 9).take 4 ++ ((s.drop 14).take 4 ++ ((s.drop 19).take 4 ++
    s.drop 24))), ?_, ?_, ?_⟩
  · rw [group_append height (hfour (by decide)) (hfour (by decide)) (hfour (by decide))]
    rw [← drop_of_hyphen (hhyphen (by decide)), ← hsplit, ← drop_of_hyphen (hhyphen (by decide)),
      ← hsplit, ← drop_of_hyphen (hhyphen (by decide)), ← hsplit,
      ← drop_of_hyphen (hhyphen (by decide)), List.take_append_drop]
  · simp only [List.length_append, height, hfour (by decide : 9 + 4 ≤ 36),
      hfour (by decide : 14 + 4 ≤ 36), hfour (by decide : 19 + 4 ≤ 36), List.length_drop, hlength]
  · intro d hd
    simp only [List.mem_append] at hd
    rcases hd with hd | hd | hd | hd | hd
    · exact hdigits (i := 0) (by omega) d hd
    · exact hdigits (by omega) d hd
    · exact hdigits (by omega) d hd
    · exact hdigits (by omega) d hd
    · apply hdigits (i := 24) (n := 12) (by omega) d
      rwa [List.take_of_length_le]
      rw [List.length_drop]
      omega

theorem map_group {f : Char → Char} (hf : f '-' = '-') (ds : List Char) :
    (group ds).map f = group (ds.map f) := by
  simp [group, hf, List.map_take, List.map_drop]

/-! ## Pairs of digits -/

/-- Bytes are spelled by pairs of digits, the high half of each byte first. -/
inductive HexPairs : List Char → List UInt8 → Prop
  | nil : HexPairs [] []
  | cons {a b : Char} {high low : Nat} {byte : UInt8} {ds : List Char} {bytes : List UInt8} :
    Text.Hex.value? a = some high → Text.Hex.value? b = some low →
    byte.toNat = 16 * high + low → HexPairs ds bytes → HexPairs (a :: b :: ds) (byte :: bytes)

/-- Pairs of digits spell bytes, which are read off them and are written as the same digits
in lower case. -/
theorem exists_hexPairs {ds : List Char} (hds : ∀ d ∈ ds, Text.isHexDigit d = true) {n : Nat}
    (length : ds.length = 2 * n) :
    ∃ bytes, HexPairs ds bytes ∧ bytes.length = n ∧
      pairUp? ds = some bytes ∧
      bytes.flatMap Text.Hex.byteDigits = ds.map Char.toLower := by
  induction n generalizing ds with
  | zero =>
    rw [List.length_eq_zero_iff.1 length]
    exact ⟨[], .nil, rfl, rfl, rfl⟩
  | succ n ih =>
    match ds, length with
    | a :: b :: ds, length =>
      simp only [List.forall_mem_cons] at hds
      simp only [List.length_cons] at length
      obtain ⟨high, hhigh⟩ := Option.isSome_iff_exists.1 (Text.Hex.isSome_value?_iff.2 hds.1)
      obtain ⟨low, hlow⟩ := Option.isSome_iff_exists.1 (Text.Hex.isSome_value?_iff.2 hds.2.1)
      obtain ⟨bytes, hpairs, hlength, hread, hwritten⟩ := ih hds.2.2 (by omega)
      have hhigh_lt : high < 16 := Text.Hex.lt_of_value? hhigh
      have hlow_lt : low < 16 := Text.Hex.lt_of_value? hlow
      have hbyte : (UInt8.ofNat (high * 16 + low)).toNat = high * 16 + low := by
        rw [UInt8.toNat_ofNat', Nat.mod_eq_of_lt (by omega)]
      refine ⟨UInt8.ofNat (high * 16 + low) :: bytes, ?_, ?_, ?_, ?_⟩
      · exact .cons hhigh hlow (by rw [hbyte, Nat.mul_comm]) hpairs
      · rw [List.length_cons, hlength]
      · rw [pairUp?, hhigh, hlow, hread]
        rfl
      · have hdivided : (high * 16 + low) / 16 = high := by omega
        have hleft : (high * 16 + low) % 16 = low := by omega
        rw [List.flatMap_cons, hwritten, Text.Hex.byteDigits, hbyte, hdivided, hleft,
          Text.Hex.digit_of_value? hhigh, Text.Hex.digit_of_value? hlow]
        rfl

/-- A hyphenated text is read as the identifier that its pairs of digits spell, and the
identifier is written as that text in lower case. -/
theorem Hyphenated.exists_uuid {body : List Char} (h : Hyphenated body) :
    ∃ u : Uuid, ofDigits? body = some u ∧ HexPairs (body.filter (· ≠ '-')) u.bytes ∧
      u.chars = body.map Char.toLower := by
  obtain ⟨ds, rfl, hlength, hds⟩ := h.exists_group
  have hvalues : ∀ d ∈ ds, (Text.Hex.value? d).isSome = true :=
    fun d hd => Text.Hex.isSome_value?_iff.2 (hds d hd)
  have hfilter : (group ds).filter (· ≠ '-') = ds :=
    filter_group fun d hd => (plain_of_isSome_value? (hvalues d hd)).1
  obtain ⟨bytes, hpairs, hbytes, hread, hwritten⟩ := exists_hexPairs hds (n := 16) hlength
  refine ⟨⟨bytes, hbytes⟩, ofDigits?_group hvalues hlength hread, ?_, ?_⟩
  · rwa [hfilter]
  · rw [chars, hwritten, map_group rfl]

/-! ## Reading by the grammar -/

/-- A text is made of a name space, or none, and a body, with blanks around both. -/
structure Parts (t space body : List Char) : Prop where
  trim_eq : Text.trim t = space ++ body
  space_folded : space = [] ∨ Text.sameFolded space nameSpace = true
  hyphenated : Hyphenated body

/-- A text with the right parts is read as the identifier that its body spells. -/
theorem Parts.parseChars_eq {t space body : List Char} (h : Parts t space body) :
    ∃ u : Uuid, parseChars t = .ok u ∧ HexPairs (body.filter (· ≠ '-')) u.bytes ∧
      u.chars = body.map Char.toLower := by
  obtain ⟨u, -, hpairs, hchars⟩ := h.hyphenated.exists_uuid
  have hfolded : Text.sameFolded body u.chars = true := by
    rw [Text.sameFolded_iff, hchars, List.map_map]
    exact List.map_congr_left fun c _ => (Text.toLower_toLower c).symm
  let s : Spelling u := ⟨[], space, body, [], rfl, h.space_folded, hfolded, rfl⟩
  have hcore : Text.trim t = s.core := h.trim_eq
  have hread : parseChars s.core = .ok u := s.parseChars_core
  refine ⟨u, ?_, hpairs, hchars⟩
  rw [parseChars, s.trim_core] at hread
  rwa [parseChars, hcore]

/-- A text that is read has the right parts. -/
theorem exists_parts_of_parseChars {t : List Char} {u : Uuid} (h : parseChars t = .ok u) :
    ∃ space body, Parts t space body := by
  unfold parseChars at h
  extract_lets body at h
  have hparts : ∃ space, Text.trim t = space ++ body ∧
      (space = [] ∨ Text.sameFolded space nameSpace = true) := by
    change ∃ space, Text.trim t = space ++ dropNameSpace (Text.trim t) ∧ _
    unfold dropNameSpace
    split
    · next hspace => exact ⟨_, (List.take_append_drop 9 _).symm, .inr hspace⟩
    · exact ⟨[], rfl, .inl rfl⟩
  rcases hparts with ⟨space, htrim, hspace⟩
  refine ⟨space, body, htrim, hspace, ?_⟩
  rw [hyphenated_iff]
  split at h
  · cases h
  split at h
  · cases h
  next hwidth =>
    split at h
    · cases h
    · next hslots => exact ⟨Decidable.not_not.1 hwidth, hslots⟩

/-- The name space is cut off only where a character begins. -/
theorem dropNameSpace_eq_cut (s : List Char) :
    dropNameSpace s =
      match Text.Utf8.cutAt? 9 s with
      | some (space, body) => if Text.sameFolded space nameSpace then body else s
      | none => s := by
  have hwidth {space : List Char} (h : Text.sameFolded space nameSpace = true) :
      Text.Utf8.width space = 9 ∧ space.length = 9 := by
    have hlength : space.length = 9 := by
      have := congrArg List.length (Text.sameFolded_iff.1 h)
      rwa [List.length_map, List.length_map] at this
    refine ⟨?_, hlength⟩
    rw [Text.Utf8.width_eq_length, hlength]
    intro c hc
    obtain ⟨d, hd, hlower⟩ := Text.exists_of_sameFolded h hc
    have hplain : nameSpace.all (fun d => d.utf8Size == 1) = true := by decide
    have hsize : d.utf8Size = 1 := eq_of_beq (List.all_eq_true.1 hplain d hd)
    rw [← Text.utf8Size_toLower, ← hlower, Text.utf8Size_toLower, hsize]
  unfold dropNameSpace
  split
  · next hspace =>
    have hcut := Text.Utf8.cutAt?_width (s.take 9) (s.drop 9)
    rw [(hwidth hspace).1, List.take_append_drop] at hcut
    rw [hcut]
    simp only [hspace, if_true]
  · next hspace =>
    cases hcut : Text.Utf8.cutAt? 9 s with
    | none => rfl
    | some parts =>
      obtain ⟨space, body⟩ := parts
      have hs := (Text.Utf8.eq_of_cutAt? hcut).1
      have hother : ¬Text.sameFolded space nameSpace = true := by
        intro h
        rw [hs, List.take_left' (hwidth h).2] at hspace
        exact hspace h
      simp only [hother]
      rfl

theorem parse_asset_eq_ok_iff {t : String} {u : Uuid} :
    AssetId.parse t = .ok ⟨u⟩ ↔ parseChars t.toList = .ok u := by
  unfold AssetId.parse parse
  cases parseChars t.toList with
  | error reason => exact ⟨nofun, nofun⟩
  | ok v =>
    change Except.ok (⟨v⟩ : AssetId) = .ok ⟨u⟩ ↔ _
    rw [Except.ok.injEq, Except.ok.injEq, AssetId.mk.injEq]

theorem parse_composition_eq_ok_iff {t : String} {u : Uuid} :
    CompositionId.parse t = .ok ⟨u⟩ ↔ parseChars t.toList = .ok u := by
  unfold CompositionId.parse parse
  cases parseChars t.toList with
  | error reason => exact ⟨nofun, nofun⟩
  | ok v =>
    change Except.ok (⟨v⟩ : CompositionId) = .ok ⟨u⟩ ↔ _
    rw [Except.ok.injEq, Except.ok.injEq, CompositionId.mk.injEq]

/-- A text spells an identifier, in one form or another. -/
def Spells (text : String) (u : Uuid) : Prop := ∃ s : Spelling u, text = String.ofList s.chars

/-- Nothing is read as an identifier but its spellings. -/
theorem exists_spelling_of_parseChars {t : List Char} {u : Uuid} (h : parseChars t = .ok u) :
    ∃ s : Spelling u, s.chars = t := by
  obtain ⟨space, body, parts⟩ := exists_parts_of_parseChars h
  obtain ⟨v, hv, -, hchars⟩ := parts.parseChars_eq
  have same : v = u := Except.ok.inj (hv.symm.trans h)
  subst same
  have hfolded : Text.sameFolded body v.chars = true := by
    rw [Text.sameFolded_iff, hchars, List.map_map]
    exact List.map_congr_left fun c _ => (Text.toLower_toLower c).symm
  obtain ⟨before, after, ht, hbefore, hafter⟩ := Text.exists_trim_append t
  refine ⟨⟨before, space, body, after, List.all_eq_true.2 hbefore, parts.space_folded, hfolded,
    List.all_eq_true.2 hafter⟩, ?_⟩
  rw [parts.trim_eq] at ht
  exact ht.symm

/-- A text is read as an identifier exactly if it spells it. -/
theorem parse_asset_iff_spells {text : String} {u : Uuid} :
    AssetId.parse text = .ok ⟨u⟩ ↔ Spells text u := by
  rw [parse_asset_eq_ok_iff]
  constructor
  · intro h
    rcases exists_spelling_of_parseChars h with ⟨s, hs⟩
    exact ⟨s, by rw [hs, String.ofList_toList]⟩
  · rintro ⟨s, rfl⟩
    rw [String.toList_ofList, s.parseChars_chars]

/-- Blanks around a spelling make another one. -/
def Spelling.between {u : Uuid} (s : Spelling u) {before after : List Char}
    (hbefore : ∀ c ∈ before, Text.isBlank c = true)
    (hafter : ∀ c ∈ after, Text.isBlank c = true) : Spelling u where
  before := before ++ s.before
  space := s.space
  body := s.body
  after := s.after ++ after
  before_blank := by
    rw [List.all_append, List.all_eq_true.2 hbefore, s.before_blank]
    rfl
  space_folded := s.space_folded
  body_folded := s.body_folded
  after_blank := by
    rw [List.all_append, s.after_blank, List.all_eq_true.2 hafter]
    rfl

theorem Spelling.chars_between {u : Uuid} (s : Spelling u) {before after : List Char}
    (hbefore : ∀ c ∈ before, Text.isBlank c = true)
    (hafter : ∀ c ∈ after, Text.isBlank c = true) :
    (s.between hbefore hafter).chars = before ++ (s.chars ++ after) := by
  simp only [chars, core, between, List.append_assoc]

/-- Without the blanks around it, a text is read as an identifier exactly if it spells it. -/
theorem parse_asset_trimmed_eq_ok_iff {text : String} {id : AssetId} :
    AssetId.parse (Text.trimmed text) = .ok id ↔ Spells text id.uuid := by
  constructor
  · intro h
    obtain ⟨s, hs⟩ := exists_spelling_of_parseChars (parse_asset_eq_ok_iff.1 h)
    obtain ⟨before, after, htext, hbefore, hafter⟩ := Text.exists_trim_append text.toList
    refine ⟨s.between hbefore hafter, ?_⟩
    rw [s.chars_between, hs, Text.trimmed, String.toList_ofList, ← htext, String.ofList_toList]
  · rintro ⟨s, rfl⟩
    rw [AssetId.parse, s.parse_trimmed]
    rfl

theorem hyphenated_chars (u : Uuid) : Hyphenated u.chars := by
  let s : Spelling u := ⟨[], [], u.chars, [], rfl, .inl rfl, Text.sameFolded_refl _, rfl⟩
  exact hyphenated_iff.2 ⟨s.width_body, s.slotFault?_body⟩

/-- An identifier is written in lower case. -/
theorem toLower_chars (u : Uuid) : u.chars.map Char.toLower = u.chars := by
  have hdigits (b : UInt8) : (Text.Hex.byteDigits b).map Char.toLower = Text.Hex.byteDigits b := by
    have hb : b.toNat < 256 := b.toNat_lt
    simp only [Text.Hex.byteDigits, List.map_cons, List.map_nil,
      Text.Hex.toLower_digit (b.toNat / 16) (by omega),
      Text.Hex.toLower_digit (b.toNat % 16) (by omega)]
  rw [chars, map_group rfl, List.map_flatMap]
  simp only [hdigits]

/-- A text is read, as the identifier of an asset or of a composition, exactly if it has the
parts that it ought to have.  The bytes are then those that the pairs of digits spell, and
the identifier is written as the body in lower case.  Every spelling of an identifier is
read as it.  Once the format is right, taking the digits for bytes does not fail; and the
name space is cut off only where a character begins. -/
theorem parse_by_grammar :
    (∀ t : String,
      ((∃ id, AssetId.parse t = .ok id) ↔ ∃ space body, Parts t.toList space body) ∧
      ((∃ id, CompositionId.parse t = .ok id) ↔ ∃ space body, Parts t.toList space body) ∧
      ∀ space body, Parts t.toList space body →
        ∃ u : Uuid, AssetId.parse t = .ok ⟨u⟩ ∧ CompositionId.parse t = .ok ⟨u⟩ ∧
          HexPairs (body.filter (· ≠ '-')) u.bytes ∧
          AssetId.text ⟨u⟩ = String.ofList (body.map Char.toLower) ∧
          CompositionId.text ⟨u⟩ = String.ofList (body.map Char.toLower)) ∧
    (∀ (u : Uuid) (s : Spelling u),
      AssetId.parse (String.ofList s.chars) = .ok ⟨u⟩ ∧
      CompositionId.parse (String.ofList s.chars) = .ok ⟨u⟩) ∧
    (∀ body, Text.Utf8.width body = 36 → slotFault? 0 body = none →
      ∃ u, ofDigits? body = some u) ∧
    ∀ s, dropNameSpace s =
      match Text.Utf8.cutAt? 9 s with
      | some (space, body) => if Text.sameFolded space nameSpace then body else s
      | none => s := by
  refine ⟨?_, ?_, ?_, dropNameSpace_eq_cut⟩
  · intro t
    have hread {space body : List Char} (h : Parts t.toList space body) :
        ∃ u : Uuid, AssetId.parse t = .ok ⟨u⟩ ∧ CompositionId.parse t = .ok ⟨u⟩ ∧
          HexPairs (body.filter (· ≠ '-')) u.bytes ∧
          AssetId.text ⟨u⟩ = String.ofList (body.map Char.toLower) ∧
          CompositionId.text ⟨u⟩ = String.ofList (body.map Char.toLower) := by
      obtain ⟨u, hu, hpairs, hchars⟩ := h.parseChars_eq
      have htext : u.text = String.ofList (body.map Char.toLower) := congrArg String.ofList hchars
      exact ⟨u, parse_asset_eq_ok_iff.2 hu, parse_composition_eq_ok_iff.2 hu, hpairs, htext, htext⟩
    refine ⟨?_, ?_, fun space body => hread⟩
    · constructor
      · intro h
        rcases h with ⟨⟨u⟩, hu⟩
        exact exists_parts_of_parseChars (parse_asset_eq_ok_iff.1 hu)
      · intro h
        rcases h with ⟨space, body, h⟩
        obtain ⟨u, hasset, -⟩ := hread h
        exact ⟨⟨u⟩, hasset⟩
    · constructor
      · intro h
        rcases h with ⟨⟨u⟩, hu⟩
        exact exists_parts_of_parseChars (parse_composition_eq_ok_iff.1 hu)
      · intro h
        rcases h with ⟨space, body, h⟩
        obtain ⟨u, -, hcomposition, -⟩ := hread h
        exact ⟨⟨u⟩, hcomposition⟩
  · intro u s
    have hread : parseChars (String.ofList s.chars).toList = .ok u := by
      rw [String.toList_ofList, s.parseChars_chars]
    exact ⟨parse_asset_eq_ok_iff.2 hread, parse_composition_eq_ok_iff.2 hread⟩
  · intro body hwidth hslots
    obtain ⟨u, hu, -⟩ := (hyphenated_iff.2 ⟨hwidth, hslots⟩).exists_uuid
    exact ⟨u, hu⟩

end Uuid

end MasterPackage
