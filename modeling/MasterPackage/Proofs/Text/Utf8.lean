import MasterPackage.Text.Utf8

/-!
# Encoding and decoding

* `decodeFirst?_encode`: the bytes of a character decode to it, whatever follows them.
* `text_encode`, `eq_encode_of_text`: the bytes of a text decode to that text, and no
  other bytes do.
* `isPrefix_of_encode`: where a text's bytes begin another's, the text begins it.
* `exists_of_text_eq_error`: bytes that are no text have a longest one in front.
* `dropMark_encode`: no byte-order mark stands in front of a text that begins with
  another character.
* `text_dropMark_eq_ok_iff`: what is left of bytes behind a byte-order mark is what is
  left of their text behind it.
-/

namespace MasterPackage.Text.Utf8

/-! ## Lead bytes and continuation bytes -/

theorem toNat_ofNat_of_lt {n : Nat} (h : n < 256) : (UInt8.ofNat n).toNat = n := by
  rw [UInt8.toNat_ofNat', Nat.mod_eq_of_lt h]

theorem lead_one {v : Nat} (h : v < 0x80) : Lead.of? (UInt8.ofNat v) = some ⟨0, v, 0⟩ := by
  have hv : (UInt8.ofNat v).toNat = v := toNat_ofNat_of_lt (by omega)
  simp only [Lead.of?, hv, if_pos h]

theorem lead_two {v : Nat} (h : v < 0x20) :
    Lead.of? (UInt8.ofNat (v + 0xC0)) = some ⟨1, v, 0x80⟩ := by
  have hv : (UInt8.ofNat (v + 0xC0)).toNat = v + 0xC0 := toNat_ofNat_of_lt (by omega)
  simp only [Lead.of?, hv]
  rw [if_neg (by omega), if_neg (by omega), if_pos (by omega), Nat.add_sub_cancel]

theorem lead_three {v : Nat} (h : v < 0x10) :
    Lead.of? (UInt8.ofNat (v + 0xE0)) = some ⟨2, v, 0x800⟩ := by
  have hv : (UInt8.ofNat (v + 0xE0)).toNat = v + 0xE0 := toNat_ofNat_of_lt (by omega)
  simp only [Lead.of?, hv]
  rw [if_neg (by omega), if_neg (by omega), if_neg (by omega), if_pos (by omega),
    Nat.add_sub_cancel]

theorem lead_four {v : Nat} (h : v < 0x08) :
    Lead.of? (UInt8.ofNat (v + 0xF0)) = some ⟨3, v, 0x10000⟩ := by
  have hv : (UInt8.ofNat (v + 0xF0)).toNat = v + 0xF0 := toNat_ofNat_of_lt (by omega)
  simp only [Lead.of?, hv]
  rw [if_neg (by omega), if_neg (by omega), if_neg (by omega), if_neg (by omega),
    if_pos (by omega), Nat.add_sub_cancel]

theorem takeTails_succ {v : Nat} (h : v < 0x40) (k bits : Nat) (bs : List UInt8) :
    takeTails (k + 1) bits (UInt8.ofNat (v + 0x80) :: bs) = takeTails k (bits * 64 + v) bs := by
  have hv : (UInt8.ofNat (v + 0x80)).toNat = v + 0x80 := toNat_ofNat_of_lt (by omega)
  rw [takeTails, if_pos (by rw [hv]; omega), hv, Nat.add_sub_cancel]

theorem charOf?_toNat (c : Char) : charOf? c.toNat = some c := by
  have hc : c.toNat.isValidChar := c.valid
  have hchar : Char.ofNat c.toNat = Char.ofNatAux c.toNat hc := dif_pos hc
  rw [charOf?, dif_pos hc, ← hchar, Char.ofNat_toNat]

theorem toNat_of_charOf? {n : Nat} {c : Char} (h : charOf? n = some c) : c.toNat = n := by
  by_cases hn : n.isValidChar
  · rw [charOf?, dif_pos hn] at h
    cases h
    rfl
  · rw [charOf?, dif_neg hn] at h
    cases h

theorem toNat_lt (c : Char) : c.toNat < 0x110000 := by
  have hc : c.toNat.isValidChar := c.valid
  simp only [Nat.isValidChar] at hc
  omega

/-! ## Characters and texts -/

theorem decodeFirst?_of_lead {b : UInt8} {bs rest : List UInt8} {lead : Lead} {n : Nat} {c : Char}
    (hlead : Lead.of? b = some lead) (htails : takeTails lead.tails lead.bits bs = some (n, rest))
    (hleast : lead.least ≤ n) (hchar : charOf? n = some c) :
    decodeFirst? (b :: bs) = some (c, rest) := by
  simp only [decodeFirst?, hlead, htails, if_neg (Nat.not_lt.2 hleast), hchar, Option.map_some]

/-- The bytes of a character decode to it, whatever follows them. -/
theorem decodeFirst?_encode (c : Char) (bs : List UInt8) :
    decodeFirst? (String.utf8EncodeChar c ++ bs) = some (c, bs) := by
  have hval : c.val.toNat = c.toNat := rfl
  have hmax := toNat_lt c
  have hread := charOf?_toNat c
  rw [String.utf8EncodeChar, hval]
  generalize c.toNat = v at hmax hread
  have low : v % 0x40 < 0x40 := Nat.mod_lt v (by decide)
  have middle : v / 64 % 0x40 < 0x40 := Nat.mod_lt _ (by decide)
  have high : v / 4096 % 0x40 < 0x40 := Nat.mod_lt _ (by decide)
  -- one case for each number of bytes; the bits in the bytes spell `v` again
  by_cases h1 : v ≤ 0x7F
  · rw [if_pos h1]
    exact decodeFirst?_of_lead (lead_one (Nat.lt_succ_of_le h1)) rfl (Nat.zero_le v) hread
  rw [if_neg h1]
  by_cases h2 : v ≤ 0x7FF
  · have lead : v / 64 % 0x20 < 0x20 := Nat.mod_lt _ (by decide)
    rw [if_pos h2]
    refine decodeFirst?_of_lead (n := v) (lead_two lead) ?_ (by dsimp only; omega) hread
    have hv : v / 64 % 0x20 * 64 + v % 0x40 = v := by omega
    change takeTails 1 (v / 64 % 0x20) (UInt8.ofNat (v % 0x40 + 0x80) :: bs) = _
    rw [takeTails_succ low, hv, takeTails]
  rw [if_neg h2]
  by_cases h3 : v ≤ 0xFFFF
  · have lead : v / 4096 % 0x10 < 0x10 := Nat.mod_lt _ (by decide)
    rw [if_pos h3]
    refine decodeFirst?_of_lead (n := v) (lead_three lead) ?_ (by dsimp only; omega) hread
    have hv : (v / 4096 % 0x10 * 64 + v / 64 % 0x40) * 64 + v % 0x40 = v := by omega
    change takeTails 2 (v / 4096 % 0x10)
      (UInt8.ofNat (v / 64 % 0x40 + 0x80) :: UInt8.ofNat (v % 0x40 + 0x80) :: bs) = _
    rw [takeTails_succ middle, takeTails_succ low, hv, takeTails]
  · have lead : v / 262144 % 0x08 < 0x08 := Nat.mod_lt _ (by decide)
    rw [if_neg h3]
    refine decodeFirst?_of_lead (n := v) (lead_four lead) ?_ (by dsimp only; omega) hread
    have hv : ((v / 262144 % 0x08 * 64 + v / 4096 % 0x40) * 64 + v / 64 % 0x40) * 64 +
        v % 0x40 = v := by omega
    change takeTails 3 (v / 262144 % 0x08)
      (UInt8.ofNat (v / 4096 % 0x40 + 0x80) :: UInt8.ofNat (v / 64 % 0x40 + 0x80) ::
        UInt8.ofNat (v % 0x40 + 0x80) :: bs) = _
    rw [takeTails_succ high, takeTails_succ middle, takeTails_succ low, hv, takeTails]

theorem encode_cons (c : Char) (cs : List Char) :
    encode (c :: cs) = String.utf8EncodeChar c ++ encode cs := rfl

theorem decodeOnto_encode (read cs : List Char) :
    decodeOnto read (encode cs) = (read.reverse ++ cs, []) := by
  induction cs generalizing read with
  | nil =>
    rw [decodeOnto]
    split
    · simp [encode]
    · next h => cases h
  | cons c cs ih =>
    rw [decodeOnto]
    split
    · next h =>
      rw [encode_cons, decodeFirst?_encode] at h
      cases h
    · next d rest h =>
      rw [encode_cons, decodeFirst?_encode] at h
      cases h
      rw [ih, List.reverse_cons, List.append_assoc]
      rfl

/-- The bytes of a text decode to that text. -/
theorem text_encode (cs : List Char) : text (encode cs) = .ok cs := by
  rw [text, decode, decodeOnto_encode]
  rfl

/-! ## The byte-order mark -/

/-- The bytes of the byte-order mark stand in front only where the mark does. -/
theorem dropMark_encode {cs : List Char} (h : cs.head? ≠ some mark) :
    dropMark (encode cs) = encode cs := by
  rw [dropMark, if_neg]
  intro hp
  obtain ⟨bs, hbs⟩ := List.isPrefixOf_iff_prefix.1 hp
  have hmark : decodeFirst? (encode cs) = some (mark, bs) := by
    rw [← hbs, ← mark_encode]
    exact decodeFirst?_encode mark bs
  cases cs with
  | nil => cases hmark
  | cons c cs =>
    rw [encode_cons, decodeFirst?_encode] at hmark
    cases hmark
    exact h rfl

theorem dropMark_markBytes (bs : List UInt8) : dropMark (markBytes ++ bs) = bs := by
  simp [dropMark, markBytes]

/-! ## Encoding what was decoded -/

theorem exists_of_takeTails {k bits n : Nat} {bs rest : List UInt8}
    (h : takeTails (k + 1) bits bs = some (n, rest)) :
    ∃ v bs', v < 0x40 ∧ bs = UInt8.ofNat (v + 0x80) :: bs' ∧
      takeTails k (bits * 64 + v) bs' = some (n, rest) := by
  cases bs with
  | nil => cases h
  | cons b bs =>
    rw [takeTails] at h
    split at h
    · next hb =>
      refine ⟨b.toNat - 0x80, bs, by omega, ?_, h⟩
      rw [Nat.sub_add_cancel hb.1, UInt8.ofNat_toNat]
    · cases h

theorem exists_of_lead {b : UInt8} {lead : Lead} (h : Lead.of? b = some lead) :
    ∃ v, (v < 0x80 ∧ lead = ⟨0, v, 0⟩ ∧ b = UInt8.ofNat v) ∨
      (v < 0x20 ∧ lead = ⟨1, v, 0x80⟩ ∧ b = UInt8.ofNat (v + 0xC0)) ∨
      (v < 0x10 ∧ lead = ⟨2, v, 0x800⟩ ∧ b = UInt8.ofNat (v + 0xE0)) ∨
      (v < 0x08 ∧ lead = ⟨3, v, 0x10000⟩ ∧ b = UInt8.ofNat (v + 0xF0)) := by
  have hsub {k : Nat} (hk : k ≤ b.toNat) : b = UInt8.ofNat (b.toNat - k + k) := by
    rw [Nat.sub_add_cancel hk, UInt8.ofNat_toNat]
  simp only [Lead.of?] at h
  split at h
  · exact ⟨b.toNat, .inl ⟨by assumption, (Option.some.inj h).symm, UInt8.ofNat_toNat.symm⟩⟩
  split at h
  · cases h
  split at h
  · exact ⟨b.toNat - 0xC0, .inr (.inl ⟨by omega, (Option.some.inj h).symm, hsub (by omega)⟩)⟩
  split at h
  · exact ⟨b.toNat - 0xE0,
      .inr (.inr (.inl ⟨by omega, (Option.some.inj h).symm, hsub (by omega)⟩))⟩
  split at h
  · exact ⟨b.toNat - 0xF0,
      .inr (.inr (.inr ⟨by omega, (Option.some.inj h).symm, hsub (by omega)⟩))⟩
  · cases h

/-- Bytes that decode to a character are the bytes of that character. -/
theorem eq_encode_of_decodeFirst? {c : Char} {bs rest : List UInt8}
    (h : decodeFirst? bs = some (c, rest)) : bs = String.utf8EncodeChar c ++ rest := by
  cases bs with
  | nil => cases h
  | cons b bs =>
    simp only [decodeFirst?] at h
    split at h
    · cases h
    next lead hlead =>
    split at h
    · cases h
    next n rest' htails =>
    split at h
    · cases h
    next hleast =>
    rcases Option.map_eq_some_iff.1 h with ⟨c', hchar, heq⟩
    cases heq
    have hval : c.val.toNat = n := toNat_of_charOf? hchar
    rw [String.utf8EncodeChar, hval]
    -- one case for each number of bytes; the least value rules out fewer
    rcases exists_of_lead hlead with
      ⟨v, ⟨hv, rfl, rfl⟩ | ⟨hv, rfl, rfl⟩ | ⟨hv, rfl, rfl⟩ | ⟨hv, rfl, rfl⟩⟩
    · cases htails
      dsimp only
      rw [if_pos (by omega)]
      rfl
    · rcases exists_of_takeTails htails with ⟨v₁, bs₁, hv₁, rfl, h₁⟩
      cases h₁
      dsimp only at hleast ⊢
      rw [if_neg (by omega), if_pos (by omega)]
      have hparts : (v * 64 + v₁) / 64 % 0x20 = v ∧ (v * 64 + v₁) % 0x40 = v₁ := by omega
      rw [hparts.1, hparts.2]
      rfl
    · rcases exists_of_takeTails htails with ⟨v₁, bs₁, hv₁, rfl, h₁⟩
      rcases exists_of_takeTails h₁ with ⟨v₂, bs₂, hv₂, rfl, h₂⟩
      cases h₂
      dsimp only at hleast ⊢
      rw [if_neg (by omega), if_neg (by omega), if_pos (by omega)]
      have hparts : ((v * 64 + v₁) * 64 + v₂) / 4096 % 0x10 = v ∧
          ((v * 64 + v₁) * 64 + v₂) / 64 % 0x40 = v₁ ∧
          ((v * 64 + v₁) * 64 + v₂) % 0x40 = v₂ := by omega
      rw [hparts.1, hparts.2.1, hparts.2.2]
      rfl
    · rcases exists_of_takeTails htails with ⟨v₁, bs₁, hv₁, rfl, h₁⟩
      rcases exists_of_takeTails h₁ with ⟨v₂, bs₂, hv₂, rfl, h₂⟩
      rcases exists_of_takeTails h₂ with ⟨v₃, bs₃, hv₃, rfl, h₃⟩
      cases h₃
      dsimp only at hleast ⊢
      rw [if_neg (by omega), if_neg (by omega), if_neg (by omega)]
      have hparts : (((v * 64 + v₁) * 64 + v₂) * 64 + v₃) / 262144 % 0x08 = v ∧
          (((v * 64 + v₁) * 64 + v₂) * 64 + v₃) / 4096 % 0x40 = v₁ ∧
          (((v * 64 + v₁) * 64 + v₂) * 64 + v₃) / 64 % 0x40 = v₂ ∧
          (((v * 64 + v₁) * 64 + v₂) * 64 + v₃) % 0x40 = v₃ := by omega
      rw [hparts.1, hparts.2.1, hparts.2.2.1, hparts.2.2.2]
      rfl

theorem decodeOnto_read {read cs : List Char} {bs rest : List UInt8}
    (h : decodeOnto read bs = (cs, rest)) :
    ∃ ds, cs = read.reverse ++ ds ∧ bs = encode ds ++ rest := by
  fun_induction decodeOnto read bs with
  | case1 read bs hfirst =>
    cases h
    exact ⟨[], (List.append_nil _).symm, rfl⟩
  | case2 read bs c bs' hfirst ih =>
    rcases ih h with ⟨ds, hcs, hbs⟩
    refine ⟨c :: ds, ?_, ?_⟩
    · rw [hcs, List.reverse_cons, List.append_assoc]
      rfl
    · rw [eq_encode_of_decodeFirst? hfirst, hbs, encode_cons, List.append_assoc]

/-- Bytes that decode to a text are the bytes of that text. -/
theorem eq_encode_of_text {bs : List UInt8} {cs : List Char} (h : text bs = .ok cs) :
    bs = encode cs := by
  rw [text] at h
  split at h
  · next hdecode =>
    cases h
    rcases decodeOnto_read hdecode with ⟨ds, hcs, hbs⟩
    rw [hbs, hcs, List.append_nil]
    rfl
  · cases h

/-- Bytes of one text that begin with the bytes of another begin with all its characters. -/
theorem isPrefix_of_encode {cs s : List Char} (h : encode cs <+: encode s) : cs <+: s := by
  induction cs generalizing s with
  | nil => exact List.nil_prefix
  | cons c cs ih =>
    rcases h with ⟨bs, hbs⟩
    have hfirst : decodeFirst? (encode s) = some (c, encode cs ++ bs) := by
      rw [← hbs, encode_cons, List.append_assoc]
      exact decodeFirst?_encode c _
    cases s with
    | nil => cases hfirst
    | cons d s =>
      rw [encode_cons, decodeFirst?_encode] at hfirst
      rcases Prod.mk.inj (Option.some.inj hfirst) with ⟨rfl, htail⟩
      exact List.cons_prefix_cons.2 ⟨rfl, ih ⟨bs, htail.symm⟩⟩

theorem width_le_of_isPrefix {cs s : List Char} (h : cs <+: s) : width cs ≤ width s := by
  rcases h with ⟨r, rfl⟩
  rw [width_append]
  exact Nat.le_add_right _ _

theorem decodeOnto_stops {read cs : List Char} {bs rest : List UInt8}
    (h : decodeOnto read bs = (cs, rest)) : decodeFirst? rest = none := by
  fun_induction decodeOnto read bs with
  | case1 read bs hfirst =>
    cases h
    exact hfirst
  | case2 read bs c bs' hfirst ih => exact ih h

/-- A text in front of bytes that goes on with no character is the longest there. -/
theorem isPrefix_of_encode_append {cs front : List Char} {rest : List UInt8}
    (hrest : decodeFirst? rest = none) (h : encode cs <+: encode front ++ rest) : cs <+: front := by
  induction cs generalizing front with
  | nil => exact List.nil_prefix
  | cons c cs ih =>
    rcases h with ⟨bs, hbs⟩
    rw [encode_cons, List.append_assoc] at hbs
    have hfirst := decodeFirst?_encode c (encode cs ++ bs)
    rw [hbs] at hfirst
    cases front with
    | nil =>
      rw [show encode [] ++ rest = rest from rfl, hrest] at hfirst
      cases hfirst
    | cons d front =>
      rw [encode_cons, List.append_assoc, decodeFirst?_encode] at hfirst
      rcases Prod.mk.inj (Option.some.inj hfirst) with ⟨rfl, htail⟩
      exact List.cons_prefix_cons.2 ⟨rfl, ih ⟨bs, htail.symm⟩⟩

/-- The longest text in front of bytes: every text in front of them is a beginning of it. -/
structure IsLongest (front : List Char) (bs : List UInt8) : Prop where
  isPrefix : encode front <+: bs
  longest : ∀ cs, encode cs <+: bs → cs <+: front

theorem IsLongest.unique {a b : List Char} {bs : List UInt8} (ha : IsLongest a bs)
    (hb : IsLongest b bs) : a = b := by
  have hab := hb.longest a ha.isPrefix
  exact hab.eq_of_length_le (ha.longest b hb.isPrefix).length_le

/-- Bytes are no text at the end of the longest text in front of them. -/
theorem exists_of_text_eq_error {bs : List UInt8} {n : Nat} (h : text bs = .error n) :
    ∃ front, IsLongest front bs ∧ encode front ≠ bs ∧ n = width front := by
  unfold text at h
  split at h
  · cases h
  · next cs b more hdecode =>
    rcases decodeOnto_read hdecode with ⟨front, -, hbs⟩
    have hstop := decodeOnto_stops hdecode
    refine ⟨front, ⟨⟨b :: more, hbs.symm⟩, fun cs' hcs => ?_⟩, ?_, ?_⟩
    · exact isPrefix_of_encode_append hstop (hbs ▸ hcs)
    · intro heq
      rw [heq] at hbs
      exact absurd (List.self_eq_append_right.1 hbs) (List.cons_ne_nil _ _)
    · cases h
      rw [hbs, List.length_append, length_encode, Nat.add_sub_cancel]

theorem encode_mark_cons (s : List Char) : encode (mark :: s) = markBytes ++ encode s := by
  rw [← mark_encode, ← encode_append]
  rfl

/-- A mark in front makes the longest text longer by itself. -/
theorem IsLongest.mark_cons {front : List Char} {bs : List UInt8} (h : IsLongest front bs) :
    IsLongest (mark :: front) (markBytes ++ bs) := by
  constructor
  · rw [encode_mark_cons]
    exact (List.prefix_append_right_inj _).2 h.isPrefix
  · intro cs hcs
    cases cs with
    | nil => exact List.nil_prefix
    | cons c cs =>
      rcases hcs with ⟨more, hmore⟩
      rw [encode_cons, List.append_assoc] at hmore
      have hfirst := decodeFirst?_encode c (encode cs ++ more)
      have hmark : decodeFirst? (markBytes ++ bs) = some (mark, bs) := by
        rw [← mark_encode]
        exact decodeFirst?_encode mark bs
      rw [hmore, hmark] at hfirst
      rcases Prod.mk.inj (Option.some.inj hfirst) with ⟨rfl, hbs⟩
      exact List.cons_prefix_cons.2 ⟨rfl, h.longest cs ⟨more, hbs.symm⟩⟩

theorem encode_injective {a b : List Char} (h : encode a = encode b) : a = b := by
  have hdecoded := text_encode a
  rw [h, text_encode] at hdecoded
  exact (Except.ok.inj hdecoded).symm

/-- The bytes of a text begin with those of its beginning. -/
theorem take_encode_append (a b : List Char) : (encode (a ++ b)).take (width a) = encode a := by
  rw [encode_append, ← length_encode, List.take_left]

/-- A character that takes one byte stands at the place of that byte. -/
theorem getElem?_encode_append {c : Char} {x : UInt8} (h : String.utf8EncodeChar c = [x])
    (a b : List Char) : (encode (a ++ c :: b))[width a]? = some x := by
  rw [encode_append, encode_cons, h, ← length_encode,
    List.getElem?_append_right (Nat.le_refl _), Nat.sub_self]
  rfl

/-! ## Marks in front -/

/-- A text without one byte-order mark at its front. -/
def withoutMark (s : List Char) : List Char :=
  match s with
  | c :: r => if c = mark then r else c :: r
  | [] => []

theorem withoutMark_mark (s : List Char) : withoutMark (mark :: s) = s := by
  rw [withoutMark, if_pos rfl]

theorem withoutMark_of_head? {s : List Char} (h : s.head? ≠ some mark) : withoutMark s = s := by
  cases s with
  | nil => rfl
  | cons c s => exact if_neg fun hc => h (congrArg some hc)

/-- The mark is dropped from the bytes of a text as from the text. -/
theorem dropMark_encode_eq (s : List Char) : dropMark (encode s) = encode (withoutMark s) := by
  by_cases h : s.head? = some mark
  · rcases List.head?_eq_some_iff.1 h with ⟨r, rfl⟩
    rw [encode_mark_cons, dropMark_markBytes, withoutMark_mark]
  · rw [dropMark_encode h, withoutMark_of_head? h]

theorem exists_of_dropMark (bs : List UInt8) :
    bs = markBytes ++ dropMark bs ∨ ¬markBytes <+: bs ∧ dropMark bs = bs := by
  by_cases h : markBytes <+: bs
  · rcases h with ⟨rest, rfl⟩
    exact .inl (by rw [dropMark_markBytes])
  · exact .inr ⟨h, if_neg fun hp => h (List.isPrefixOf_iff_prefix.1 hp)⟩

/-- The bytes that are a text behind a mark, or without one, are those of a text. -/
theorem text_dropMark_eq_ok_iff {bs : List UInt8} {s : List Char} :
    text (dropMark bs) = .ok s ↔ ∃ full, bs = encode full ∧ withoutMark full = s := by
  constructor
  · intro h
    have hbytes := eq_encode_of_text h
    rcases exists_of_dropMark bs with hmark | ⟨hmark, hsame⟩
    · refine ⟨mark :: s, ?_, withoutMark_mark s⟩
      rw [hmark, hbytes, encode_mark_cons]
    · rw [hsame] at hbytes
      refine ⟨s, hbytes, withoutMark_of_head? fun hhead => hmark ?_⟩
      rcases List.head?_eq_some_iff.1 hhead with ⟨r, rfl⟩
      rw [hbytes, ← mark_encode]
      exact ⟨encode r, (encode_append [mark] r).symm⟩
  · rintro ⟨full, rfl, rfl⟩
    rw [dropMark_encode_eq, text_encode]

/-- A mark that was dropped would be dropped from any beginning of the text as well. -/
theorem exists_mark (s : List Char) :
    ∃ marks, s = marks ++ withoutMark s ∧
      ∀ x, x <+: withoutMark s → withoutMark (marks ++ x) = x := by
  by_cases h : s.head? = some mark
  · rcases List.head?_eq_some_iff.1 h with ⟨r, rfl⟩
    refine ⟨[mark], ?_, fun x _ => withoutMark_mark x⟩
    rw [withoutMark_mark]
    rfl
  · rw [withoutMark_of_head? h]
    refine ⟨[], rfl, fun x hx => withoutMark_of_head? fun hhead => h ?_⟩
    rcases List.head?_eq_some_iff.1 hhead with ⟨r, rfl⟩
    rcases hx with ⟨y, rfl⟩
    rfl

/-- The same for up to two marks. -/
theorem exists_marks (s : List Char) :
    ∃ marks, s = marks ++ withoutMark (withoutMark s) ∧
      ∀ x, x <+: withoutMark (withoutMark s) → withoutMark (withoutMark (marks ++ x)) = x := by
  rcases exists_mark s with ⟨first, hs, hfirst⟩
  rcases exists_mark (withoutMark s) with ⟨second, hrest, hsecond⟩
  refine ⟨first ++ second, ?_, ?_⟩
  · rw [List.append_assoc, ← hrest, ← hs]
  · intro x hx
    have hprefix : second ++ x <+: withoutMark s := by
      rw [hrest]
      exact (List.prefix_append_right_inj second).2 hx
    rw [List.append_assoc, hfirst _ hprefix, hsecond x hx]

end MasterPackage.Text.Utf8
