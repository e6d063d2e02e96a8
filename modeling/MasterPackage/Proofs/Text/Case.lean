import MasterPackage.Text.Blank
import MasterPackage.Text.Case
import MasterPackage.Text.Hex

/-!
# What letter case leaves alone

The lower case of a character is as blank, as long and as much of a digit as the
character itself, so a reader that asks for nothing else cannot tell spellings apart that
differ in case only.
-/

namespace MasterPackage.Text

theorem toNat_toLower (c : Char) :
    c.toLower.toNat = if 0x41 ≤ c.toNat ∧ c.toNat ≤ 0x5A then c.toNat + 0x20 else c.toNat := by
  have hupper : (c.val ≥ 'A'.val ∧ c.val ≤ 'Z'.val) ↔ 0x41 ≤ c.toNat ∧ c.toNat ≤ 0x5A := Iff.rfl
  unfold Char.toLower
  by_cases h : 0x41 ≤ c.toNat ∧ c.toNat ≤ 0x5A
  · have hfits : c.val.toNat + 0x20 < 2 ^ 32 := by
      have : c.val.toNat ≤ 0x5A := h.2
      omega
    rw [dif_pos (hupper.2 h), if_pos h]
    change (c.val.toNat + 0x20) % 2 ^ 32 = c.val.toNat + 0x20
    exact Nat.mod_eq_of_lt hfits
  · rw [dif_neg (fun h' => h (hupper.1 h')), if_neg h]

theorem isBlank_iff {c : Char} :
    isBlank c = true ↔
      (0x09 ≤ c.toNat ∧ c.toNat ≤ 0x0D) ∨ c.toNat = 0x20 ∨ c.toNat = 0x85 ∨ c.toNat = 0xA0 ∨
        c.toNat = 0x1680 ∨ (0x2000 ≤ c.toNat ∧ c.toNat ≤ 0x200A) ∨ c.toNat = 0x2028 ∨
        c.toNat = 0x2029 ∨ c.toNat = 0x202F ∨ c.toNat = 0x205F ∨ c.toNat = 0x3000 := by
  simp [isBlank, or_assoc]

/-- No letter is blank, in either case. -/
theorem isBlank_toLower (c : Char) : isBlank c.toLower = isBlank c := by
  have h := toNat_toLower c
  rw [Bool.eq_iff_iff, isBlank_iff, isBlank_iff]
  split at h <;> omega

/-- A digit has the same value in both cases. -/
theorem Hex.value?_toLower (c : Char) : value? c.toLower = value? c := by
  have h := toNat_toLower c
  split at h
  · simp only [value?, h]
    by_cases hdigit : c.toNat ≤ 0x46
    · rw [if_neg (by omega), if_pos (by omega), if_neg (by omega), if_neg (by omega),
        if_pos (by omega)]
      exact congrArg some (by omega)
    · rw [if_neg (by omega), if_neg (by omega), if_neg (by omega), if_neg (by omega),
        if_neg (by omega), if_neg (by omega)]
  · simp only [value?, h]

theorem toLower_eq_hyphen {c : Char} : c.toLower = '-' ↔ c = '-' := by
  have h := toNat_toLower c
  have hhyphen : '-'.toNat = 0x2D := rfl
  rw [← Char.toNat_inj, ← Char.toNat_inj]
  split at h <;> omega

/-- A character takes one byte in both cases or in neither. -/
theorem utf8Size_toLower {c : Char} : c.toLower.utf8Size = 1 ↔ c.utf8Size = 1 := by
  have h := toNat_toLower c
  have hsize (d : Char) : d.utf8Size = 1 ↔ d.toNat ≤ 0x7F := Char.utf8Size_eq_one_iff
  rw [hsize, hsize]
  split at h <;> omega

/-- Texts that agree up to case have the same characters up to case. -/
theorem exists_of_sameFolded {a b : List Char} (h : sameFolded a b = true) {c : Char}
    (hc : c ∈ a) : ∃ d ∈ b, d.toLower = c.toLower := by
  have hmem : c.toLower ∈ b.map Char.toLower :=
    sameFolded_iff.1 h ▸ List.mem_map_of_mem hc
  exact List.mem_map.1 hmem

theorem isAlpha_iff {c : Char} :
    c.isAlpha = true ↔
      (0x41 ≤ c.toNat ∧ c.toNat ≤ 0x5A) ∨ (0x61 ≤ c.toNat ∧ c.toNat ≤ 0x7A) := by
  have hupper : c.isUpper = true ↔ 0x41 ≤ c.toNat ∧ c.toNat ≤ 0x5A := decide_eq_true_iff
  have hlower : c.isLower = true ↔ 0x61 ≤ c.toNat ∧ c.toNat ≤ 0x7A :=
    Bool.and_eq_true_iff.trans (and_congr decide_eq_true_iff decide_eq_true_iff)
  rw [← hupper, ← hlower]
  exact Bool.or_eq_true_iff

theorem isAlpha_of_toLower {c : Char} (h : c.toLower.isAlpha = true) : c.isAlpha = true := by
  have hcase := toNat_toLower c
  rw [isAlpha_iff] at h ⊢
  split at hcase
  · next hupper => exact .inl hupper
  · rwa [hcase] at h

/-- Texts that agree with letters up to case are letters. -/
theorem isAlpha_of_sameFolded {a b : List Char} (h : sameFolded a b = true)
    (letters : (b.all fun d => d.toLower.isAlpha) = true) {c : Char} (hc : c ∈ a) :
    c.isAlpha = true := by
  obtain ⟨d, hd, hcase⟩ := exists_of_sameFolded h hc
  exact isAlpha_of_toLower (hcase ▸ List.all_eq_true.1 letters d hd)

/-- Nothing but blanks is cut off around a text without blanks. -/
theorem trim_append_append {before core after : List Char}
    (hbefore : ∀ c ∈ before, isBlank c = true) (hcore : ∀ c ∈ core, isBlank c = false)
    (hafter : ∀ c ∈ after, isBlank c = true) : trim (before ++ (core ++ after)) = core := by
  have hkeep {s : List Char} (hs : ∀ c ∈ s, isBlank c = false) : s.dropWhile isBlank = s := by
    cases s with
    | nil => rfl
    | cons c s => exact List.dropWhile_cons_of_neg (by simp [hs c (List.mem_cons_self ..)])
  cases core with
  | nil =>
    rw [trim_eq_nil_iff]
    intro c hc
    rcases List.mem_append.1 hc with hc | hc
    · exact hbefore c hc
    · exact hafter c hc
  | cons c core =>
    have hfront : trimFront (c :: core ++ after) = c :: core ++ after :=
      List.dropWhile_cons_of_neg (by simp [hcore c (List.mem_cons_self ..)])
    have hreverse : ∀ d ∈ (c :: core).reverse, isBlank d = false :=
      fun d hd => hcore d (List.mem_reverse.1 hd)
    rw [trim, trimFront_append_of_blank hbefore, hfront, trimBack_append_of_blank hafter, trimBack,
      hkeep hreverse, List.reverse_reverse]

/-- A text is what is left of it by trimming, between blanks. -/
theorem exists_trim_append (s : List Char) :
    ∃ before after, s = before ++ (trim s ++ after) ∧ (∀ c ∈ before, isBlank c = true) ∧
      ∀ c ∈ after, isBlank c = true := by
  have front (s : List Char) :
      ∃ before, s = before ++ trimFront s ∧ ∀ c ∈ before, isBlank c = true :=
    ⟨s.takeWhile isBlank, List.takeWhile_append_dropWhile.symm,
      List.all_eq_true.1 List.all_takeWhile⟩
  obtain ⟨before, hs, hbefore⟩ := front s
  obtain ⟨after, hback, hafter⟩ := front (trimFront s).reverse
  have back : trimFront s = trim s ++ after.reverse := by
    have := congrArg List.reverse hback
    rwa [List.reverse_reverse, List.reverse_append] at this
  refine ⟨before, after.reverse, ?_, hbefore, fun c hc => hafter c (List.mem_reverse.1 hc)⟩
  rw [← back]
  exact hs

end MasterPackage.Text
