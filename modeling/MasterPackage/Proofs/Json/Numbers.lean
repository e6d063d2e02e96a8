import MasterPackage.Proofs.Json.Strings

/-!
# A grammar of JSON numbers

A number goes on as far as it can, so what is read as one depends on the text behind it.  The
grammar says what a number is; it is read up to its end where the text behind is delimited.
-/

namespace MasterPackage.Json

/-- At least one digit, and nothing else. -/
structure Digits (ds : List Char) : Prop where
  ne_nil : ds ≠ []
  isDigit : ∀ d ∈ ds, d.isDigit = true

/-- What stands behind the whole part of a number, from its point on, or nothing. -/
inductive Fraction : List Char → Prop
  | none : Fraction []
  | some {ds : List Char} (h : Digits ds) : Fraction ('.' :: ds)

/-- What stands behind the fraction of a number, or nothing. -/
inductive Exponent : List Char → Prop
  | none : Exponent []
  | some {mark : Char} {sign ds : List Char} (hmark : mark = 'e' ∨ mark = 'E')
    (hsign : sign = [] ∨ sign = ['+'] ∨ sign = ['-']) (h : Digits ds) :
    Exponent (mark :: (sign ++ ds))

/-- A number without its sign.  A leading zero stands alone. -/
inductive Number : List Char → Prop
  | of {whole fraction exponent : List Char} (hwhole : Digits whole)
    (hzero : whole.head? = some '0' → whole = ['0']) (hfraction : Fraction fraction)
    (hexponent : Exponent exponent) : Number (whole ++ (fraction ++ exponent))

/-- A text that no number goes on with: it begins with a blank, or with what stands behind
a value in a list or an object, or it is empty. -/
def Delimited (rest : List Char) : Prop :=
  ∀ c ∈ rest.head?, isSpace c = true ∨ c = ',' ∨ c = ']' ∨ c = '\x7d'

/-- The characters that a number can go on with. -/
def goesOn (c : Char) : Bool := c.isDigit || c == '.' || c == 'e' || c == 'E'

/-- A text that does not go on with a digit. -/
def NoDigit (s : List Char) : Prop := ∀ c ∈ s.head?, c.isDigit = false

theorem Delimited.not_goesOn {rest : List Char} (h : Delimited rest) {c : Char}
    (hc : c ∈ rest.head?) : goesOn c = false := by
  rcases h c hc with hspace | rfl | rfl | rfl
  · simp only [isSpace, Bool.or_eq_true, decide_eq_true_eq] at hspace
    rcases hspace with ((rfl | rfl) | rfl) | rfl <;> decide
  · decide
  · decide
  · decide

theorem Delimited.noDigit {rest : List Char} (h : Delimited rest) : NoDigit rest := by
  intro c hc
  have hnot := h.not_goesOn hc
  simp only [goesOn, Bool.or_eq_false_iff] at hnot
  exact hnot.1.1.1

theorem NoDigit.cons {c : Char} (h : c.isDigit = false) (s : List Char) : NoDigit (c :: s) := by
  intro d hd
  cases hd
  exact h

theorem Exponent.noDigit {s rest : List Char} (h : Exponent s) (hrest : Delimited rest) :
    NoDigit (s ++ rest) := by
  cases h with
  | none => exact hrest.noDigit
  | some hmark =>
    rcases hmark with rfl | rfl
    · exact .cons (by decide) _
    · exact .cons (by decide) _

theorem Fraction.noDigit {s e rest : List Char} (h : Fraction s) (he : Exponent e)
    (hrest : Delimited rest) : NoDigit (s ++ (e ++ rest)) := by
  cases h with
  | none => exact he.noDigit hrest
  | some => exact .cons (by decide) _

theorem digits_append {ds rest : List Char} (h : ∀ d ∈ ds, d.isDigit = true)
    (hrest : NoDigit rest) : digits (ds ++ rest) = (ds, rest) := by
  have hstop : rest.takeWhile Char.isDigit = [] ∧ rest.dropWhile Char.isDigit = rest := by
    cases rest with
    | nil => exact ⟨rfl, rfl⟩
    | cons c rest =>
      have hc : ¬c.isDigit = true := by
        rw [hrest c rfl]
        decide
      exact ⟨List.takeWhile_cons_of_neg hc, List.dropWhile_cons_of_neg hc⟩
  rw [digits, List.takeWhile_append_of_pos h, List.dropWhile_append_of_pos h, hstop.1, hstop.2,
    List.append_nil]

/-- The digits at the front of a text, and the text behind them. -/
theorem digits_spec (s : List Char) :
    s = (digits s).1 ++ (digits s).2 ∧ ∀ d ∈ (digits s).1, d.isDigit = true :=
  ⟨List.takeWhile_append_dropWhile.symm, List.all_eq_true.1 List.all_takeWhile⟩

/-- Whether a sign in front of an exponent is a minus, and the text behind the sign. -/
def unsigned (s : List Char) : Bool × List Char :=
  match s with
  | '-' :: r => (true, r)
  | '+' :: r => (false, r)
  | r => (false, r)

theorem unsigned_of_digit {d : Char} (h : d.isDigit = true) (s : List Char) :
    unsigned (d :: s) = (false, d :: s) := by
  unfold unsigned
  split
  · next heq =>
    cases heq
    exact absurd h (by decide)
  · next heq =>
    cases heq
    exact absurd h (by decide)
  · rfl

theorem exponentPart_eq (atEnd : Failure) (s : List Char) :
    exponentPart atEnd s =
      match digits (unsigned s).2 with
      | ([], []) => .error atEnd
      | ([], _ :: _) => .error .notJson
      | (ds, r) => .ok (if (unsigned s).1 then -(decimal ds : Int) else decimal ds, r) := rfl

theorem exponentPart_append {sign ds rest : List Char}
    (hsign : sign = [] ∨ sign = ['+'] ∨ sign = ['-']) (h : Digits ds) (hrest : NoDigit rest)
    (atEnd : Failure) : ∃ e, exponentPart atEnd (sign ++ (ds ++ rest)) = .ok (e, rest) := by
  have hread := digits_append h.isDigit hrest
  rcases List.exists_cons_of_ne_nil h.ne_nil with ⟨d, more, rfl⟩
  have hrest : (unsigned (sign ++ (d :: more ++ rest))).2 = d :: more ++ rest := by
    rcases hsign with rfl | rfl | rfl
    · exact congrArg Prod.snd (unsigned_of_digit (h.isDigit d List.mem_cons_self) (more ++ rest))
    · rfl
    · rfl
  rw [exponentPart_eq, hrest, hread]
  exact ⟨_, rfl⟩

theorem exists_of_exponentPart {atEnd : Failure} {s rest : List Char} {e : Int}
    (h : exponentPart atEnd s = .ok (e, rest)) :
    ∃ sign ds, (sign = [] ∨ sign = ['+'] ∨ sign = ['-']) ∧ Digits ds ∧
      s = sign ++ (ds ++ rest) := by
  have hsign : ∃ sign, (sign = [] ∨ sign = ['+'] ∨ sign = ['-']) ∧ s = sign ++ (unsigned s).2 := by
    unfold unsigned
    split
    · exact ⟨['-'], .inr (.inr rfl), rfl⟩
    · exact ⟨['+'], .inr (.inl rfl), rfl⟩
    · exact ⟨[], .inl rfl, rfl⟩
  rcases hsign with ⟨sign, hsign, hs⟩
  rcases digits_spec (unsigned s).2 with ⟨hsplit, hdigits⟩
  rw [exponentPart_eq] at h
  split at h
  · cases h
  · cases h
  · next ds r hne hdrop hread =>
    rw [hread] at hsplit hdigits
    cases h
    refine ⟨sign, ds, hsign, ⟨?_, hdigits⟩, by rw [← hsplit, ← hs]⟩
    rintro rfl
    cases rest with
    | nil => exact hne rfl rfl
    | cons c rest => exact hdrop c rest rfl rfl

/-- The fraction at the front of a text, without its point, and the text behind it. -/
def fractionPart (atEnd : Failure) (s : List Char) : Except Failure (List Char × List Char) :=
  match s with
  | '.' :: r =>
    match digits r with
    | ([], []) => .error atEnd
    | ([], _ :: _) => .error .notJson
    | (ds, r) => .ok (ds, r)
  | r => .ok ([], r)

theorem fractionPart_point (atEnd : Failure) (r : List Char) :
    fractionPart atEnd ('.' :: r) =
      match digits r with
      | ([], []) => .error atEnd
      | ([], _ :: _) => .error .notJson
      | (ds, r) => .ok (ds, r) := rfl

/-- The exponent at the front of a text, if one stands there, and the text behind it. -/
def exponentPart? (atEnd : Failure) (s : List Char) : Except Failure (Int × List Char) :=
  match s with
  | 'e' :: r | 'E' :: r => exponentPart atEnd r
  | r => .ok (0, r)

theorem behindFraction_eq (atEnd : Failure) (whole fraction t : List Char) :
    (match t with
      | 'e' :: r | 'E' :: r => do
        let (e, r) ← exponentPart atEnd r
        pure (⟨whole, fraction, e⟩, r)
      | r => pure (⟨whole, fraction, 0⟩, r) : Except Failure (Numeral × List Char)) =
    match exponentPart? atEnd t with
    | .error e => .error e
    | .ok (e, r) => .ok (⟨whole, fraction, e⟩, r) := by
  unfold exponentPart?
  split
  · next r =>
    cases exponentPart atEnd r <;> rfl
  · next r =>
    cases exponentPart atEnd r <;> rfl
  · rfl

theorem numberTail_eq (atEnd : Failure) (whole s : List Char) :
    numberTail atEnd whole s =
      match fractionPart atEnd s with
      | .error e => .error e
      | .ok (fraction, t) =>
        match exponentPart? atEnd t with
        | .error e => .error e
        | .ok (e, r) => .ok (⟨whole, fraction, e⟩, r) := by
  unfold numberTail
  split
  · next r =>
    rw [fractionPart_point]
    cases hread : digits r with
    | mk ds t =>
      cases ds with
      | nil => cases t <;> rfl
      | cons d ds => exact behindFraction_eq atEnd whole (d :: ds) t
  · next hpoint =>
    rw [fractionPart]
    · exact behindFraction_eq atEnd whole [] s
    · exact hpoint

theorem fractionPart_append {f t : List Char} (h : Fraction f) (ht : NoDigit t)
    (hpoint : ∀ r, t ≠ '.' :: r) (atEnd : Failure) :
    ∃ ds, fractionPart atEnd (f ++ t) = .ok (ds, t) := by
  cases h with
  | none =>
    refine ⟨[], ?_⟩
    rw [List.nil_append, fractionPart]
    exact fun r hr => hpoint r hr
  | some h =>
    rename_i ds
    refine ⟨ds, ?_⟩
    rcases List.exists_cons_of_ne_nil h.ne_nil with ⟨d, more, rfl⟩
    have hread := digits_append h.isDigit ht
    simp only [List.cons_append, fractionPart] at hread ⊢
    rw [hread]

theorem exists_of_fractionPart {atEnd : Failure} {s t ds : List Char}
    (h : fractionPart atEnd s = .ok (ds, t)) : ∃ f, Fraction f ∧ s = f ++ t := by
  unfold fractionPart at h
  split at h
  · next r =>
    rcases digits_spec r with ⟨hsplit, hdigits⟩
    split at h
    · cases h
    · cases h
    · next ds' r' hne hdrop hread =>
      rw [hread] at hsplit hdigits
      cases h
      refine ⟨'.' :: ds, .some ⟨?_, hdigits⟩, congrArg (List.cons '.') hsplit⟩
      rintro rfl
      cases t with
      | nil => exact hne rfl rfl
      | cons c t => exact hdrop c t rfl rfl
  · cases h
    exact ⟨[], .none, rfl⟩

theorem exponentPart?_append {e rest : List Char} (h : Exponent e) (hrest : Delimited rest)
    (atEnd : Failure) : ∃ n, exponentPart? atEnd (e ++ rest) = .ok (n, rest) := by
  cases h with
  | none =>
    refine ⟨0, ?_⟩
    cases rest with
    | nil => rfl
    | cons c rest =>
      have hc := hrest.not_goesOn (c := c) rfl
      simp only [goesOn, Bool.or_eq_false_iff, beq_eq_false_iff_ne] at hc
      rw [List.nil_append, exponentPart?]
      · exact fun r hr => hc.1.2 (List.cons.inj hr).1
      · exact fun r hr => hc.2 (List.cons.inj hr).1
  | some hmark hsign h =>
    rename_i sign ds
    rcases exponentPart_append hsign h hrest.noDigit atEnd with ⟨n, hn⟩
    refine ⟨n, ?_⟩
    rcases hmark with rfl | rfl
    · rw [List.cons_append, List.append_assoc]
      exact hn
    · rw [List.cons_append, List.append_assoc]
      exact hn

theorem exists_of_exponentPart? {atEnd : Failure} {s rest : List Char} {n : Int}
    (h : exponentPart? atEnd s = .ok (n, rest)) : ∃ e, Exponent e ∧ s = e ++ rest := by
  unfold exponentPart? at h
  split at h
  · rcases exists_of_exponentPart h with ⟨sign, ds, hsign, hds, rfl⟩
    exact ⟨'e' :: (sign ++ ds), .some (.inl rfl) hsign hds, by simp⟩
  · rcases exists_of_exponentPart h with ⟨sign, ds, hsign, hds, rfl⟩
    exact ⟨'E' :: (sign ++ ds), .some (.inr rfl) hsign hds, by simp⟩
  · cases h
    exact ⟨[], .none, rfl⟩

theorem Exponent.not_point {e rest : List Char} (h : Exponent e) (hrest : Delimited rest)
    (r : List Char) : e ++ rest ≠ '.' :: r := by
  intro heq
  cases h with
  | none =>
    rw [List.nil_append] at heq
    subst heq
    exact absurd (hrest.not_goesOn (c := '.') rfl) (by decide)
  | some hmark =>
    have hhead := (List.cons.inj heq).1
    rcases hmark with rfl | rfl
    · exact absurd hhead (by decide)
    · exact absurd hhead (by decide)

/-- A number is read up to its end. -/
theorem numeral_of_number {lit rest : List Char} (h : Number lit) (hrest : Delimited rest)
    (atEnd : Failure) : ∃ n, numeral atEnd (lit ++ rest) = .ok (n, rest) := by
  cases h with
  | of hwhole hzero hfraction hexponent =>
    rename_i whole fraction exponent
    have hbehind := hfraction.noDigit hexponent hrest
    have hread := digits_append hwhole.isDigit hbehind
    rcases fractionPart_append hfraction (hexponent.noDigit hrest) (hexponent.not_point hrest) atEnd
      with ⟨ds, hds⟩
    rcases exponentPart?_append hexponent hrest atEnd with ⟨n, hn⟩
    refine ⟨⟨whole, ds, n⟩, ?_⟩
    rw [List.append_assoc, List.append_assoc, numeral, hread]
    rcases List.exists_cons_of_ne_nil hwhole.ne_nil with ⟨d, more, rfl⟩
    split
    · next heq => cases heq
    · next heq => cases heq
    · next heq =>
      cases heq
      cases hzero rfl
    · next heq =>
      cases heq
      rw [numberTail_eq, hds]
      simp only [hn]

/-- What is read as a number is one. -/
theorem exists_of_numeral {atEnd : Failure} {s rest : List Char} {n : Numeral}
    (h : numeral atEnd s = .ok (n, rest)) : ∃ lit, Number lit ∧ s = lit ++ rest := by
  rcases digits_spec s with ⟨hsplit, hdigits⟩
  unfold numeral at h
  split at h
  · cases h
  · cases h
  · cases h
  · next ds r hne hdrop hzero hread =>
    rw [hread] at hsplit hdigits
    rw [numberTail_eq] at h
    split at h
    · cases h
    next fraction t hfraction =>
    split at h
    · cases h
    next e r' hexponent =>
    cases h
    rcases exists_of_fractionPart hfraction with ⟨f, hf, rfl⟩
    rcases exists_of_exponentPart? hexponent with ⟨x, hx, rfl⟩
    refine ⟨ds ++ (f ++ x), .of ⟨?_, hdigits⟩ ?_ hf hx, by rw [hsplit]; simp⟩
    · rintro rfl
      cases hr : f ++ (x ++ rest) with
      | nil => exact hne rfl hr
      | cons c r => exact hdrop c r rfl hr
    · intro hhead
      rcases List.head?_eq_some_iff.1 hhead with ⟨more, rfl⟩
      cases more with
      | nil => rfl
      | cons d more => exact absurd rfl (hzero d more)

end MasterPackage.Json
