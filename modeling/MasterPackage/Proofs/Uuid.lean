import MasterPackage.Proofs.Text.Case
import MasterPackage.Uuid

/-!
# Spelling identifiers

An identifier may be written with digits of either case, with the name space in front
or without it, and with blanks around it.  Reading looks at a character only through
its lower case, so each of these spellings is read like the text that the identifier is
written as.
-/

namespace MasterPackage

namespace Uuid

/-- Faults do not depend on the case of letters. -/
theorem slotFault?_map_toLower (i : Nat) (s : List Char) :
    slotFault? i (s.map Char.toLower) = slotFault? i s := by
  induction s generalizing i with
  | nil => rfl
  | cons c s ih =>
    simp only [List.map_cons, slotFault?, Text.toLower_eq_hyphen, Text.Hex.value?_toLower, ih]

theorem pairUp?_map_toLower (ds : List Char) : pairUp? (ds.map Char.toLower) = pairUp? ds := by
  fun_induction pairUp? ds with
  | case1 => rfl
  | case2 d => rfl
  | case3 a b ds ih =>
    simp only [List.map_cons, pairUp?, Text.Hex.value?_toLower, ih]

/-- Neither does the identifier that is spelled. -/
theorem ofDigits?_map_toLower (s : List Char) : ofDigits? (s.map Char.toLower) = ofDigits? s := by
  have hyphens : (s.map Char.toLower).map (· == '-') = s.map (· == '-') := by
    rw [List.map_map]
    refine List.map_congr_left fun c _ => Bool.eq_iff_iff.2 ?_
    simp only [Function.comp_apply, beq_iff_eq, Text.toLower_eq_hyphen]
  have digits : (s.map Char.toLower).filter (· ≠ '-') =
      (s.filter (· ≠ '-')).map Char.toLower := by
    rw [List.filter_map]
    refine congrArg (List.map Char.toLower) (List.filter_congr fun c _ => ?_)
    simp only [Function.comp_apply, ne_eq, Text.toLower_eq_hyphen]
  simp only [ofDigits?, hyphens, digits, pairUp?_map_toLower]

/-! ## The text that an identifier is written as -/

/-- The digits of an identifier, without the hyphens. -/
def digits (u : Uuid) : List Char := u.bytes.flatMap Text.Hex.byteDigits

theorem length_digits (u : Uuid) : u.digits.length = 32 := by
  have hsum : (u.bytes.map fun _ => 2).sum = u.bytes.length * 2 := by
    rw [List.map_const', List.sum_replicate_nat]
  rw [digits, List.length_flatMap]
  simp only [Text.Hex.length_byteDigits, hsum, u.length_bytes]

theorem isSome_value?_digit : ∀ n < 16, (Text.Hex.value? (Text.Hex.digit n)).isSome = true := by
  decide

/-- Every character among the digits is one. -/
theorem isSome_value?_of_mem_digits {u : Uuid} :
    ∀ d ∈ u.digits, (Text.Hex.value? d).isSome = true := by
  intro d hd
  obtain ⟨b, -, hd⟩ := List.mem_flatMap.1 hd
  have hb : b.toNat < 256 := b.toNat_lt
  simp only [Text.Hex.byteDigits, List.mem_cons, List.not_mem_nil, or_false] at hd
  rcases hd with rfl | rfl
  · exact isSome_value?_digit _ (by omega)
  · exact isSome_value?_digit _ (by omega)

/-- A digit is no hyphen, is not blank and takes one byte. -/
theorem plain_of_isSome_value? {d : Char} (hd : (Text.Hex.value? d).isSome = true) :
    d ≠ '-' ∧ Text.isBlank d = false ∧ d.utf8Size = 1 := by
  have hrange : (0x30 ≤ d.toNat ∧ d.toNat ≤ 0x39) ∨ (0x61 ≤ d.toNat ∧ d.toNat ≤ 0x66) ∨
      (0x41 ≤ d.toNat ∧ d.toNat ≤ 0x46) := by
    simp only [Text.Hex.value?] at hd
    split at hd
    · exact .inl ‹_›
    split at hd
    · exact .inr (.inl ‹_›)
    split at hd
    · exact .inr (.inr ‹_›)
    · cases hd
  refine ⟨?_, ?_, ?_⟩
  · rintro rfl
    exact absurd hrange (by decide)
  · rw [Bool.eq_false_iff, ne_eq, Text.isBlank_iff]
    omega
  · exact Char.utf8Size_eq_one_iff.2 (show d.toNat ≤ 0x7F by omega)

theorem length_group {ds : List Char} (length : ds.length = 32) : (group ds).length = 36 := by
  simp only [group, List.length_append, List.length_cons, List.length_take, List.length_drop,
    length]
  rfl

theorem mem_group {ds : List Char} {c : Char} (hc : c ∈ group ds) : c ∈ ds ∨ c = '-' := by
  simp only [group, List.mem_append, List.mem_cons] at hc
  rcases hc with (((h | h | h) | h | h) | h | h) | h | h
  · exact .inl (List.mem_of_mem_take h)
  · exact .inr h
  · exact .inl (List.mem_of_mem_drop (List.mem_of_mem_take h))
  · exact .inr h
  · exact .inl (List.mem_of_mem_drop (List.mem_of_mem_take h))
  · exact .inr h
  · exact .inl (List.mem_of_mem_drop (List.mem_of_mem_take h))
  · exact .inr h
  · exact .inl (List.mem_of_mem_drop h)

/-- Digits where digits belong are no fault. -/
theorem slotFault?_digits {s : List Char} (hs : ∀ d ∈ s, (Text.Hex.value? d).isSome = true)
    {i : Nat} (hi : ∀ j ∈ hyphenSlots, j < i ∨ i + s.length ≤ j) (t : List Char) :
    slotFault? i (s ++ t) = slotFault? (i + s.length) t := by
  induction s generalizing i with
  | nil => rfl
  | cons d s ih =>
    rw [List.length_cons] at hi ⊢
    have hslot : i ∉ hyphenSlots := fun h => by
      have := hi i h
      omega
    have hnext : ∀ j ∈ hyphenSlots, j < i + 1 ∨ i + 1 + s.length ≤ j := fun j hj => by
      have := hi j hj
      have hne : j ≠ i := fun h => hslot (h ▸ hj)
      omega
    rw [List.cons_append, slotFault?, if_neg hslot, if_pos (hs d (List.mem_cons_self ..))]
    rw [ih (fun e he => hs e (List.mem_cons_of_mem d he)) hnext]
    congr 1
    omega

theorem slotFault?_hyphen {i : Nat} (hi : i ∈ hyphenSlots) (t : List Char) :
    slotFault? i ('-' :: t) = slotFault? (i + 1) t := by
  rw [slotFault?, if_pos hi, if_pos rfl]

/-- Digits in their groups are without fault. -/
theorem slotFault?_group {ds : List Char} (hds : ∀ d ∈ ds, (Text.Hex.value? d).isSome = true)
    (length : ds.length = 32) : slotFault? 0 (group ds) = none := by
  have hmiddle (i : Nat) : ∀ d ∈ (ds.drop i).take 4, (Text.Hex.value? d).isSome = true :=
    fun d hd => hds d (List.mem_of_mem_drop (List.mem_of_mem_take hd))
  have hfour {i : Nat} (hi : i ≤ 28) : ((ds.drop i).take 4).length = 4 := by
    rw [List.length_take, List.length_drop, length]
    omega
  have height : (ds.take 8).length = 8 := by rw [List.length_take, length]; rfl
  have htwelve : (ds.drop 20).length = 12 := by rw [List.length_drop, length]
  have hlast := slotFault?_digits (fun d hd => hds d (List.mem_of_mem_drop hd))
    (i := 24) (s := ds.drop 20) (by rw [htwelve]; decide) []
  simp only [group, List.append_assoc, List.cons_append]
  rw [slotFault?_digits (fun d hd => hds d (List.mem_of_mem_take hd)) (by rw [height]; decide),
    height, slotFault?_hyphen (by decide)]
  rw [slotFault?_digits (hmiddle 8) (by rw [hfour (by decide)]; decide), hfour (by decide),
    slotFault?_hyphen (by decide)]
  rw [slotFault?_digits (hmiddle 12) (by rw [hfour (by decide)]; decide), hfour (by decide),
    slotFault?_hyphen (by decide)]
  rw [slotFault?_digits (hmiddle 16) (by rw [hfour (by decide)]; decide), hfour (by decide),
    slotFault?_hyphen (by decide)]
  rw [List.append_nil] at hlast
  rw [hlast, slotFault?]

/-- Without its hyphens, a text in groups is its digits. -/
theorem filter_group {ds : List Char} (hds : ∀ d ∈ ds, d ≠ '-') :
    (group ds).filter (· ≠ '-') = ds := by
  have hkeep {part : List Char} (hpart : ∀ d ∈ part, d ∈ ds) : part.filter (· ≠ '-') = part :=
    List.filter_eq_self.2 fun d hd => decide_eq_true (hds d (hpart d hd))
  have hdrop (t : List Char) : ('-' :: t).filter (· ≠ '-') = t.filter (· ≠ '-') :=
    List.filter_cons_of_neg (by decide)
  have hmiddle (i : Nat) : ∀ d ∈ (ds.drop i).take 4, d ∈ ds :=
    fun d hd => List.mem_of_mem_drop (List.mem_of_mem_take hd)
  simp only [group, List.filter_append, hdrop]
  rw [hkeep fun d hd => List.mem_of_mem_take hd, hkeep (hmiddle 8), hkeep (hmiddle 12),
    hkeep (hmiddle 16), hkeep fun d hd => List.mem_of_mem_drop hd]
  have h20 := List.take_append_drop 4 (ds.drop 16)
  have h16 := List.take_append_drop 4 (ds.drop 12)
  have h12 := List.take_append_drop 4 (ds.drop 8)
  rw [List.drop_drop] at h20 h16 h12
  rw [List.append_assoc, h20, List.append_assoc, h16, List.append_assoc, h12,
    List.take_append_drop]

/-- Hyphens stand between the groups and nowhere else. -/
theorem hyphens_group {ds : List Char} (hds : ∀ d ∈ ds, d ≠ '-') (length : ds.length = 32) :
    (group ds).map (· == '-') = (List.range 36).map (hyphenSlots.contains ·) := by
  have none : ds.map (· == '-') = List.replicate 32 false := by
    rw [← length, ← List.map_const']
    exact List.map_congr_left fun d hd => beq_eq_false_iff_ne.2 (hds d hd)
  simp only [group, List.map_append, List.map_cons, List.map_take, List.map_drop, none]
  rfl

/-- Digits in their groups spell the identifier that their pairs do. -/
theorem ofDigits?_group {ds : List Char} (hds : ∀ d ∈ ds, (Text.Hex.value? d).isSome = true)
    (length : ds.length = 32) {u : Uuid} (pairs : pairUp? ds = some u.bytes) :
    ofDigits? (group ds) = some u := by
  have plain : ∀ d ∈ ds, d ≠ '-' := fun d hd => (plain_of_isSome_value? (hds d hd)).1
  rw [ofDigits?, if_pos (hyphens_group plain length), filter_group plain, pairs]
  exact dif_pos u.length_bytes

/-- Two digits for each byte spell the bytes. -/
theorem pairUp?_byteDigits (bytes : List UInt8) :
    pairUp? (bytes.flatMap Text.Hex.byteDigits) = some bytes := by
  induction bytes with
  | nil => rfl
  | cons b bytes ih =>
    have hb : b.toNat < 256 := b.toNat_lt
    have hhigh := Text.Hex.value?_digit (b.toNat / 16) (by omega)
    have hlow := Text.Hex.value?_digit (b.toNat % 16) (by omega)
    have hbyte : UInt8.ofNat (b.toNat / 16 * 16 + b.toNat % 16) = b := by
      rw [Nat.div_add_mod', UInt8.ofNat_toNat]
    rw [List.flatMap_cons, Text.Hex.byteDigits, List.cons_append, List.cons_append,
      List.nil_append, pairUp?, hhigh, hlow, ih]
    exact congrArg (fun b => some (b :: bytes)) hbyte

theorem ofDigits?_chars (u : Uuid) : ofDigits? u.chars = some u :=
  ofDigits?_group isSome_value?_of_mem_digits u.length_digits (pairUp?_byteDigits u.bytes)

/-! ## Spellings -/

/-- A spelling of an identifier: its digits in either case, behind the name space in
either case or without it, between blanks. -/
structure Spelling (u : Uuid) where
  before : List Char
  space : List Char
  body : List Char
  after : List Char
  before_blank : before.all Text.isBlank = true
  space_folded : space = [] ∨ Text.sameFolded space nameSpace = true
  body_folded : Text.sameFolded body u.chars = true
  after_blank : after.all Text.isBlank = true

namespace Spelling

variable {u : Uuid} (s : Spelling u)

/-- A spelling without the blanks around it. -/
def core : List Char := s.space ++ s.body

/-- A spelling as it is written. -/
def chars : List Char := s.before ++ (s.core ++ s.after)

/-- In an identifier's text there are no blanks, and every character takes one byte. -/
theorem plain_of_mem_chars {c : Char} (hc : c ∈ u.chars) :
    Text.isBlank c = false ∧ c.utf8Size = 1 := by
  rcases mem_group hc with hdigit | rfl
  · exact (plain_of_isSome_value? (isSome_value?_of_mem_digits c hdigit)).2
  · decide

theorem plain_of_mem_body {c : Char} (hc : c ∈ s.body) :
    Text.isBlank c = false ∧ c.utf8Size = 1 := by
  obtain ⟨d, hd, hlower⟩ := Text.exists_of_sameFolded s.body_folded hc
  obtain ⟨hblank, hsize⟩ := plain_of_mem_chars hd
  rw [← Text.isBlank_toLower, ← Text.utf8Size_toLower, ← hlower]
  exact ⟨(Text.isBlank_toLower d).trans hblank, Text.utf8Size_toLower.2 hsize⟩

theorem length_body : s.body.length = 36 := by
  have h := congrArg List.length (Text.sameFolded_iff.1 s.body_folded)
  rw [List.length_map, List.length_map] at h
  exact h.trans (length_group u.length_digits)

theorem body_ne_nil : s.body ≠ [] := by
  intro h
  have := s.length_body
  rw [h] at this
  cases this

theorem width_body : Text.Utf8.width s.body = 36 :=
  (Text.Utf8.width_eq_length fun _ hc => (s.plain_of_mem_body hc).2).trans s.length_body

theorem not_isBlank_of_mem_core {c : Char} (hc : c ∈ s.core) : Text.isBlank c = false := by
  rcases List.mem_append.1 hc with hspace | hbody
  · rcases s.space_folded with hnil | hfolded
    · rw [hnil] at hspace
      cases hspace
    · have hplain : nameSpace.all (fun d => !Text.isBlank d) = true := by decide
      obtain ⟨d, hd, hlower⟩ := Text.exists_of_sameFolded hfolded hspace
      rw [← Text.isBlank_toLower, ← hlower, Text.isBlank_toLower]
      simpa using List.all_eq_true.1 hplain d hd
  · exact (s.plain_of_mem_body hbody).1

theorem core_ne_nil : s.core ≠ [] := fun h => s.body_ne_nil (List.append_eq_nil_iff.1 h).2

theorem trim_chars : Text.trim s.chars = s.core :=
  Text.trim_append_append (List.all_eq_true.1 s.before_blank)
    (fun _ => s.not_isBlank_of_mem_core) (List.all_eq_true.1 s.after_blank)

theorem trim_core : Text.trim s.core = s.core := by
  have hnone : ∀ c ∈ ([] : List Char), Text.isBlank c = true := by simp
  have h := Text.trim_append_append hnone (fun _ => s.not_isBlank_of_mem_core) hnone
  rwa [List.nil_append, List.append_nil] at h

/-- The digits of an identifier do not begin like the name space. -/
theorem not_sameFolded_take : Text.sameFolded (s.body.take 9) nameSpace = false := by
  rw [Bool.eq_false_iff]
  intro hfolded
  obtain ⟨c, hc, hu⟩ : ∃ c ∈ s.body.take 9, c.toLower = 'u' :=
    Text.exists_of_sameFolded (Text.sameFolded_comm .. ▸ hfolded) (List.mem_cons_self ..)
  obtain ⟨d, hd, hlower⟩ := Text.exists_of_sameFolded s.body_folded (List.mem_of_mem_take hc)
  rw [hu] at hlower
  rcases mem_group hd with hdigit | rfl
  · have hvalue := isSome_value?_of_mem_digits d hdigit
    rw [← Text.Hex.value?_toLower, hlower] at hvalue
    exact absurd hvalue (by decide)
  · exact absurd hlower (by decide)

theorem dropNameSpace_core : dropNameSpace s.core = s.body := by
  rcases s.space_folded with hnil | hfolded
  · rw [core, hnil, List.nil_append, dropNameSpace, s.not_sameFolded_take]
    rfl
  · have hlength : s.space.length = 9 := by
      have h := congrArg List.length (Text.sameFolded_iff.1 hfolded)
      rwa [List.length_map, List.length_map] at h
    rw [core, dropNameSpace, List.take_left' hlength, if_pos hfolded, List.drop_left' hlength]

/-- Reading sees through the case of letters. -/
theorem slotFault?_body : slotFault? 0 s.body = none := by
  rw [← slotFault?_map_toLower, Text.sameFolded_iff.1 s.body_folded, slotFault?_map_toLower]
  exact slotFault?_group isSome_value?_of_mem_digits u.length_digits

theorem ofDigits?_body : ofDigits? s.body = some u := by
  rw [← ofDigits?_map_toLower, Text.sameFolded_iff.1 s.body_folded, ofDigits?_map_toLower]
  exact u.ofDigits?_chars

theorem parseChars_core : parseChars s.core = .ok u := by
  simp only [parseChars, s.trim_core, s.dropNameSpace_core, if_neg s.body_ne_nil, s.width_body,
    s.slotFault?_body, s.ofDigits?_body]
  rfl

/-- Every spelling of an identifier is read as it. -/
theorem parseChars_chars : parseChars s.chars = .ok u := by
  have h := s.parseChars_core
  rw [parseChars, s.trim_core] at h
  rwa [parseChars, s.trim_chars]

/-- So it is when the blanks around it were cut off before. -/
theorem parse_trimmed : Uuid.parse (Text.trimmed (String.ofList s.chars)) = .ok u := by
  rw [Uuid.parse, Text.trimmed, String.toList_ofList, String.toList_ofList, s.trim_chars,
    s.parseChars_core]
  rfl

end Spelling

end Uuid

end MasterPackage
