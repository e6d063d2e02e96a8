import MasterPackage.Json.Reader
import MasterPackage.Json.Value

/-!
# A grammar of JSON strings

What stands in a JSON text is told by relations between a text and what is left of it,
without a word about how it is read.  Here these are the blanks, the escapes and the strings.
-/

namespace MasterPackage.Json

/-! ## Blanks -/

/-- Blanks stand in front of a text, or nothing does. -/
def Blanks (s rest : List Char) : Prop := ∃ w, (∀ c ∈ w, isSpace c = true) ∧ s = w ++ rest

/-- A text that does not begin with a blank. -/
def NoBlank (s : List Char) : Prop := ∀ c ∈ s.head?, isSpace c = false

theorem Blanks.refl (s : List Char) : Blanks s s := ⟨[], nofun, rfl⟩

theorem NoBlank.nil : NoBlank [] := nofun

theorem NoBlank.cons {c : Char} (h : isSpace c = false) (s : List Char) : NoBlank (c :: s) := by
  intro d hd
  cases hd
  exact h

theorem blanks_skipSpace (s : List Char) : Blanks s (skipSpace s) :=
  ⟨s.takeWhile isSpace, List.all_eq_true.1 List.all_takeWhile,
    List.takeWhile_append_dropWhile.symm⟩

theorem noBlank_skipSpace (s : List Char) : NoBlank (skipSpace s) := by
  intro c hc
  have hnot := List.head?_dropWhile_not isSpace s
  rw [show (s.dropWhile isSpace).head? = some c from hc] at hnot
  exact hnot

/-- Blanks are passed over as far as they go. -/
theorem Blanks.skipSpace {s rest : List Char} (h : Blanks s rest) (hrest : NoBlank rest) :
    skipSpace s = rest := by
  rcases h with ⟨w, hw, rfl⟩
  rw [Json.skipSpace, List.dropWhile_append_of_pos hw]
  cases rest with
  | nil => rfl
  | cons c rest =>
    have hc : ¬isSpace c = true := by
      rw [hrest c rfl]
      decide
    exact List.dropWhile_cons_of_neg hc

/-- What stands behind blanks is found behind them. -/
theorem skipSpace_eq_iff {s rest : List Char} (hrest : NoBlank rest) :
    skipSpace s = rest ↔ Blanks s rest :=
  ⟨fun h => h ▸ blanks_skipSpace s, fun h => h.skipSpace hrest⟩

/-! ## Strings -/

/-- Four hexadecimal digits spell a number. -/
def Four (a b c d : Char) (n : Nat) : Prop :=
  ∃ w x y z, Text.Hex.value? a = some w ∧ Text.Hex.value? b = some x ∧
    Text.Hex.value? c = some y ∧ Text.Hex.value? d = some z ∧ n = ((w * 16 + x) * 16 + y) * 16 + z

/-- What a backslash begins, the character it stands for, and the text behind it. -/
inductive Escape : List Char → Char → List Char → Prop
  | short {c d : Char} (h : shortEscape? c = some d) (rest : List Char) : Escape (c :: rest) d rest
  /-- A number of the basic plane. -/
  | number {a b c d : Char} {n : Nat} (h : Four a b c d n) (hn : n < 0xD800 ∨ 0xDFFF < n)
    (rest : List Char) : Escape ('u' :: a :: b :: c :: d :: rest) (Char.ofNat n) rest
  /-- Two numbers for one character beyond it. -/
  | pair {a b c d a' b' c' d' : Char} {n m : Nat} (h : Four a b c d n) (h' : Four a' b' c' d' m)
    (hn : 0xD800 ≤ n ∧ n ≤ 0xDBFF) (hm : 0xDC00 ≤ m ∧ m ≤ 0xDFFF) (rest : List Char) :
    Escape ('u' :: a :: b :: c :: d :: '\\' :: 'u' :: a' :: b' :: c' :: d' :: rest)
      (Char.ofNat ((n - 0xD800) * 0x400 + (m - 0xDC00) + 0x10000)) rest

/-- A character that stands for itself in a string. -/
def IsPlain (c : Char) : Prop := c ≠ '"' ∧ c ≠ '\\' ∧ ¬c.toNat < 0x20

/-- The text behind an opening quote, the characters that are meant, and the text behind
the closing quote. -/
inductive Body : List Char → List Char → List Char → Prop
  | close (rest : List Char) : Body ('"' :: rest) [] rest
  | plain {c : Char} {s cs rest : List Char} (h : IsPlain c) (more : Body s cs rest) :
    Body (c :: s) (c :: cs) rest
  | escape {d : Char} {s t cs rest : List Char} (h : Escape s d t) (more : Body t cs rest) :
    Body ('\\' :: s) (d :: cs) rest

/-- The text behind an opening quote, and the text behind the closing quote, where it does
not matter whether the escapes stand for characters. -/
inductive Passed : List Char → List Char → Prop
  | close (rest : List Char) : Passed ('"' :: rest) rest
  | plain {c : Char} {s rest : List Char} (h : IsPlain c) (more : Passed s rest) :
    Passed (c :: s) rest
  | short {c d : Char} {s rest : List Char} (h : shortEscape? c = some d) (more : Passed s rest) :
    Passed ('\\' :: c :: s) rest
  | number {a b c d : Char} {n : Nat} {s rest : List Char} (h : Four a b c d n)
    (more : Passed s rest) : Passed ('\\' :: 'u' :: a :: b :: c :: d :: s) rest

theorem fourDigits_eq_ok_iff {s r : List Char} {n : Nat} :
    fourDigits s = .ok (n, r) ↔ ∃ a b c d, s = a :: b :: c :: d :: r ∧ Four a b c d n := by
  constructor
  · intro h
    unfold fourDigits at h
    split at h
    · cases h
    split at h
    · next a b c d r' _ =>
      split at h
      · next w x y z hw hx hy hz =>
        rcases Prod.mk.inj (Except.ok.inj h) with ⟨rfl, rfl⟩
        exact ⟨a, b, c, d, rfl, w, x, y, z, hw, hx, hy, hz, rfl⟩
      · cases h
    · cases h
  · rintro ⟨a, b, c, d, rfl, w, x, y, z, hw, hx, hy, hz, rfl⟩
    have hwide : ¬Text.Utf8.width (a :: b :: c :: d :: r) < 4 := by
      have ha := a.utf8Size_pos
      have hb := b.utf8Size_pos
      have hc := c.utf8Size_pos
      have hd := d.utf8Size_pos
      simp only [Text.Utf8.width_cons]
      omega
    simp only [fourDigits, if_neg hwide, hw, hx, hy, hz]

theorem fourDigits_of_four {a b c d : Char} {n : Nat} (h : Four a b c d n) (r : List Char) :
    fourDigits (a :: b :: c :: d :: r) = .ok (n, r) :=
  fourDigits_eq_ok_iff.2 ⟨a, b, c, d, rfl, h⟩

theorem shortEscape?_u : shortEscape? 'u' = none := by decide

theorem escape_eq_ok_iff {s r : List Char} {d : Char} :
    escape s = .ok (d, r) ↔ Escape s d r := by
  constructor
  · intro h
    cases s with
    | nil => cases h
    | cons c s =>
      rw [Json.escape] at h
      split at h
      · next d' hshort =>
        cases h
        exact .short hshort _
      split at h
      · next hc =>
        subst hc
        unfold numberEscape at h
        split at h
        · cases h
        next n t hfour =>
        rcases fourDigits_eq_ok_iff.1 hfour with ⟨a₁, a₂, a₃, a₄, rfl, hn⟩
        split at h
        · cases h
        next hlow =>
        split at h
        · next hbasic =>
          rcases Prod.mk.inj (Except.ok.inj h) with ⟨rfl, rfl⟩
          exact .number hn (by omega) _
        next hhigh =>
        split at h
        · cases h
        · cases h
        · split at h
          · cases h
          next m t' hfour' =>
          rcases fourDigits_eq_ok_iff.1 hfour' with ⟨b₁, b₂, b₃, b₄, rfl, hm⟩
          split at h
          · next hpair =>
            rcases Prod.mk.inj (Except.ok.inj h) with ⟨rfl, rfl⟩
            exact .pair hn hm (by omega) hpair _
          · cases h
        · cases h
      · cases h
  · intro h
    cases h with
    | short h rest => simp only [Json.escape, h]
    | number h hn rest =>
      simp only [Json.escape, shortEscape?_u, if_pos, numberEscape, fourDigits_of_four h]
      rw [if_neg (by omega), if_pos (by omega)]
    | pair h h' hn hm rest =>
      simp only [Json.escape, shortEscape?_u, if_pos, numberEscape, fourDigits_of_four h,
        fourDigits_of_four h']
      rw [if_neg (by omega), if_neg (by omega), if_pos hm]

/-- A string is read as the grammar says. -/
theorem stringBody_eq_ok_iff {s cs rest : List Char} :
    stringBody s = .ok (cs, rest) ↔ Body s cs rest := by
  constructor
  · intro h
    fun_induction stringBody s generalizing cs rest with
    | case1 => cases h
    | case2 r =>
      cases h
      exact .close r
    | case3 => cases h
    | case4 => cases h
    | case5 r d r' hescape cs' rest' hbody _ ih =>
      cases h
      exact .escape (escape_eq_ok_iff.1 hescape) (ih hbody)
    | case6 => cases h
    | case7 => cases h
    | case8 c r hquote hslash hcontrol cs' rest' hbody ih =>
      cases h
      exact .plain ⟨hquote, hslash, hcontrol⟩ (ih hbody)
  · intro h
    induction h with
    | close rest => rw [stringBody, if_pos rfl]
    | plain h _ ih => rw [stringBody, if_neg h.1, if_neg h.2.1, if_neg h.2.2, ih]
    | escape h _ ih =>
      rw [stringBody, if_neg (by decide), if_pos rfl]
      split
      · next e herror =>
        rw [escape_eq_ok_iff.2 h] at herror
        cases herror
      · next d' r' hok =>
        rw [escape_eq_ok_iff.2 h] at hok
        cases hok
        rw [ih]

/-- A string is passed over as the grammar says. -/
theorem skipString_eq_ok_iff {s rest : List Char} : skipString s = .ok rest ↔ Passed s rest := by
  constructor
  · intro h
    fun_induction skipString s generalizing rest with
    | case1 => cases h
    | case2 r =>
      cases h
      exact .close r
    | case3 => cases h
    | case4 c r hshort _ ih =>
      rcases Option.isSome_iff_exists.1 hshort with ⟨d, hd⟩
      exact .short hd (ih h)
    | case5 => cases h
    | case6 r n r' hfour _ _ ih =>
      rcases fourDigits_eq_ok_iff.1 hfour with ⟨a, b, c, d, rfl, hn⟩
      exact .number hn (ih h)
    | case7 => cases h
    | case8 => cases h
    | case9 c r hquote hslash hcontrol ih => exact .plain ⟨hquote, hslash, hcontrol⟩ (ih h)
  · intro h
    induction h with
    | close rest =>
      rw [skipString.eq_def]
      rfl
    | plain h _ ih =>
      rw [skipString.eq_def]
      dsimp only
      rw [if_neg h.1, if_neg h.2.1, if_neg h.2.2, ih]
    | short h _ ih =>
      rw [skipString.eq_def]
      simp only [h, Option.isSome_some, ih]
      rfl
    | number h _ ih =>
      rw [skipString.eq_def]
      dsimp only
      rw [if_neg (by decide), if_pos rfl, shortEscape?_u, if_neg (by decide), if_pos rfl]
      split
      · next e herror =>
        rw [fourDigits_of_four h] at herror
        cases herror
      · next n' r' hok =>
        rw [fourDigits_of_four h] at hok
        cases hok
        exact ih

/-- A string is found behind blanks and its opening quote. -/
theorem stringValue_eq_ok_iff {s rest : List Char} {u : String} :
    stringValue s = .ok (u, rest) ↔
      ∃ t cs, Blanks s ('"' :: t) ∧ Body t cs rest ∧ u = String.ofList cs := by
  constructor
  · intro h
    unfold stringValue at h
    split at h
    · next t hquote =>
      cases hbody : stringBody t with
      | error e =>
        rw [hbody] at h
        cases h
      | ok found =>
        rcases found with ⟨cs, r⟩
        rw [hbody] at h
        cases h
        exact ⟨t, cs, hquote ▸ blanks_skipSpace s, stringBody_eq_ok_iff.1 hbody, rfl⟩
    · cases h
  · rintro ⟨t, cs, hquote, hbody, rfl⟩
    simp only [stringValue, hquote.skipSpace (.cons (by decide) t), stringBody_eq_ok_iff.2 hbody]
    rfl

theorem Body.length_lt {s cs rest : List Char} (h : Body s cs rest) : rest.length < s.length :=
  stringBody_length (stringBody_eq_ok_iff.2 h)

/-! ## Written strings -/

theorem four_of_control {n : Nat} (h : n < 0x20) :
    Four '0' '0' (Text.Hex.digit (n / 16)) (Text.Hex.digit (n % 16)) n := by
  refine ⟨0, 0, n / 16, n % 16, rfl, rfl, Text.Hex.value?_digit _ (by omega),
    Text.Hex.value?_digit _ (by omega), by omega⟩

/-- A character as it is written stands for itself. -/
theorem Body.of_quoteChar (c : Char) {s cs rest : List Char} (h : Body s cs rest) :
    Body (quoteChar c ++ s) (c :: cs) rest := by
  have hsame {n : Nat} (hn : c.toNat = n) : Char.ofNat n = c := by rw [← hn, Char.ofNat_toNat]
  unfold quoteChar
  split
  · next hc =>
    subst hc
    exact .escape (.short (by decide) s) h
  split
  · next hc =>
    subst hc
    exact .escape (.short (by decide) s) h
  split
  · next hc =>
    rw [← hsame hc]
    exact .escape (.short (by decide) s) h
  split
  · next hc =>
    subst hc
    exact .escape (.short (by decide) s) h
  split
  · next hc =>
    subst hc
    exact .escape (.short (by decide) s) h
  split
  · next hc =>
    rw [← hsame hc]
    exact .escape (.short (by decide) s) h
  split
  · next hc =>
    subst hc
    exact .escape (.short (by decide) s) h
  split
  · next hcontrol =>
    have hchar := Escape.number (four_of_control hcontrol) (.inl (by omega)) s
    rw [Char.ofNat_toNat] at hchar
    exact .escape hchar h
  · next hquote hslash _ _ _ _ _ hcontrol => exact .plain ⟨hquote, hslash, hcontrol⟩ h

/-- A string as it is written stands for its characters. -/
theorem Body.of_quote (cs rest : List Char) :
    Body (cs.flatMap quoteChar ++ '"' :: rest) cs rest := by
  induction cs with
  | nil => exact .close rest
  | cons c cs ih =>
    rw [List.flatMap_cons, List.append_assoc]
    exact ih.of_quoteChar c

end MasterPackage.Json
