import MasterPackage.Proofs.Json.Numbers

/-!
# Values that are passed over

A value nobody asked for may be anything that is JSON.  `Skips` says what that is, for a value
and for what stands behind a value inside a list or an object, and the two theorems at the end
say that exactly this is passed over.

Values are nested to any depth, and are passed over with a stack of what encloses them.  Going
on after a value depends on that stack and on the text behind the value alone, so both
directions are told by what is left to do behind a value.
-/

namespace MasterPackage.Json

/-! ## The grammar -/

/-- The name of a member with its colon, and the text behind. -/
def MemberName (s rest : List Char) : Prop :=
  ∃ t u, Blanks s ('"' :: t) ∧ Passed t u ∧ Blanks u (':' :: rest)

/-- A part of a text: a value, or what stands behind one up to the end of what encloses it. -/
inductive Part where
  | value
  | behind (frame : Frame)

/-- A part at the front of a text, and the text behind it.  A value has no blanks in front. -/
inductive Skips : Part → List Char → List Char → Prop
  | null (rest : List Char) : Skips .value ('n' :: 'u' :: 'l' :: 'l' :: rest) rest
  | true (rest : List Char) : Skips .value ('t' :: 'r' :: 'u' :: 'e' :: rest) rest
  | false (rest : List Char) : Skips .value ('f' :: 'a' :: 'l' :: 's' :: 'e' :: rest) rest
  | number {lit : List Char} (h : Number lit) (rest : List Char) : Skips .value (lit ++ rest) rest
  | negative {lit : List Char} (h : Number lit) (rest : List Char) :
    Skips .value ('-' :: (lit ++ rest)) rest
  | string {s rest : List Char} (h : Passed s rest) : Skips .value ('"' :: s) rest
  | emptyList {s rest : List Char} (h : Blanks s (']' :: rest)) : Skips .value ('[' :: s) rest
  | list {s t u rest : List Char} (h : Blanks s t) (first : Skips .value t u)
    (more : Skips (.behind .list) u rest) : Skips .value ('[' :: s) rest
  | emptyObject {s rest : List Char} (h : Blanks s ('\x7d' :: rest)) :
    Skips .value ('\x7b' :: s) rest
  | object {s t u v rest : List Char} (name : MemberName s t) (h : Blanks t u)
    (first : Skips .value u v) (more : Skips (.behind .object) v rest) :
    Skips .value ('\x7b' :: s) rest
  | endList {s rest : List Char} (h : Blanks s (']' :: rest)) : Skips (.behind .list) s rest
  | nextItem {s t u v rest : List Char} (comma : Blanks s (',' :: t)) (h : Blanks t u)
    (item : Skips .value u v) (more : Skips (.behind .list) v rest) :
    Skips (.behind .list) s rest
  | endObject {s rest : List Char} (h : Blanks s ('\x7d' :: rest)) :
    Skips (.behind .object) s rest
  | nextMember {s t u v w rest : List Char} (comma : Blanks s (',' :: t)) (name : MemberName t u)
    (h : Blanks u v) (value : Skips .value v w) (more : Skips (.behind .object) w rest) :
    Skips (.behind .object) s rest

/-! ## Pieces of values -/

theorem skipSpace_of_noBlank {s : List Char} (h : NoBlank s) : skipSpace s = s :=
  (Blanks.refl s).skipSpace h

theorem skipSpace_skipSpace (s : List Char) : skipSpace (skipSpace s) = skipSpace s :=
  skipSpace_of_noBlank (noBlank_skipSpace s)

theorem word_eq_ok_iff {w s rest : List Char} : word w s = .ok rest ↔ s = w ++ rest := by
  induction w generalizing s with
  | nil =>
    constructor
    · intro h
      cases h
      rfl
    · rintro rfl
      rfl
  | cons c w ih =>
    cases s with
    | nil => exact ⟨nofun, nofun⟩
    | cons d s =>
      rw [word]
      by_cases h : d = c
      · rw [if_pos h, ih, h]
        exact ⟨fun heq => congrArg (List.cons c) heq, fun heq => (List.cons.inj heq).2⟩
      · rw [if_neg h]
        exact ⟨nofun, fun heq => absurd (List.cons.inj heq).1 h⟩

theorem skipName_eq_ok_iff {s rest : List Char} : skipName s = .ok rest ↔ MemberName s rest := by
  constructor
  · intro h
    unfold skipName at h
    split at h
    · cases h
    · next t hquote =>
      split at h
      · cases h
      next u hname =>
      split at h
      · cases h
      · next r hcolon =>
        cases h
        exact ⟨t, u, hquote ▸ blanks_skipSpace s, skipString_eq_ok_iff.1 hname,
          hcolon ▸ blanks_skipSpace u⟩
      · cases h
    · cases h
  · rintro ⟨t, u, hquote, hname, hcolon⟩
    simp only [skipName, hquote.skipSpace (.cons (by decide) t), skipString_eq_ok_iff.2 hname,
      hcolon.skipSpace (.cons (by decide) rest)]

theorem MemberName.of_skipSpace {s rest : List Char} (h : MemberName (skipSpace s) rest) :
    MemberName s rest := by
  rw [← skipName_eq_ok_iff, skipName, skipSpace_skipSpace] at h
  rw [← skipName_eq_ok_iff, skipName]
  exact h

theorem MemberName.skipSpace {s rest : List Char} (h : MemberName s rest) :
    MemberName (skipSpace s) rest ∧ ∃ t, skipSpace s = '"' :: t := by
  rcases h with ⟨t, u, hquote, hname, hcolon⟩
  have hs := hquote.skipSpace (.cons (by decide) t)
  exact ⟨⟨t, u, hs ▸ Blanks.refl _, hname, hcolon⟩, t, hs⟩

theorem Number.exists_digit {lit : List Char} (h : Number lit) :
    ∃ d more, lit = d :: more ∧ d.isDigit = true := by
  cases h with
  | of hwhole =>
    rcases List.exists_cons_of_ne_nil hwhole.ne_nil with ⟨d, more, rfl⟩
    exact ⟨d, _, rfl, hwhole.isDigit d List.mem_cons_self⟩

/-- The characters that no value begins with, and no member. -/
def ends : List Char := [' ', '\n', '\t', '\r', ']', '\x7d', ',', ':']

theorem notMem_ends_of_isDigit {d : Char} (h : d.isDigit = true) : d ∉ ends := by
  intro hd
  simp only [ends, List.mem_cons, List.not_mem_nil, or_false] at hd
  rcases hd with rfl | rfl | rfl | rfl | rfl | rfl | rfl | rfl <;> exact absurd h (by decide)

/-- A value begins with a character that ends nothing. -/
theorem Skips.exists_head {s rest : List Char} (h : Skips .value s rest) :
    ∃ c t, s = c :: t ∧ c ∉ ends := by
  cases h with
  | number h rest =>
    rcases h.exists_digit with ⟨d, more, rfl, hd⟩
    exact ⟨d, _, rfl, notMem_ends_of_isDigit hd⟩
  | _ => exact ⟨_, _, rfl, by decide⟩

theorem isSpace_eq_false_of_notMem {c : Char} (h : c ∉ ends) : isSpace c = false := by
  simp only [ends, List.mem_cons, List.not_mem_nil, or_false, not_or] at h
  simp [isSpace, h.1, h.2.1, h.2.2.1, h.2.2.2.1]

theorem Skips.noBlank {s rest : List Char} (h : Skips .value s rest) : NoBlank s := by
  rcases h.exists_head with ⟨c, t, rfl, hc⟩
  exact .cons (isSpace_eq_false_of_notMem hc) t

/-- A text is delimited where blanks and then a comma or a closing bracket follow. -/
theorem Blanks.delimited {s rest : List Char} {c : Char} (h : Blanks s (c :: rest))
    (hc : c = ',' ∨ c = ']' ∨ c = '\x7d') : Delimited s := by
  rcases h with ⟨w, hw, rfl⟩
  intro d hd
  cases w with
  | nil =>
    cases hd
    exact .inr hc
  | cons b w =>
    cases hd
    exact .inl (hw _ List.mem_cons_self)

theorem Skips.delimited {frame : Frame} {s rest : List Char} (h : Skips (.behind frame) s rest) :
    Delimited s := by
  cases h with
  | endList h => exact h.delimited (.inr (.inl rfl))
  | nextItem comma => exact comma.delimited (.inl rfl)
  | endObject h => exact h.delimited (.inr (.inr rfl))
  | nextMember comma => exact comma.delimited (.inl rfl)

theorem Blanks.trans {s t u : List Char} (h : Blanks s t) (h' : Blanks t u) : Blanks s u := by
  rcases h with ⟨v, hv, rfl⟩
  rcases h' with ⟨w, hw, rfl⟩
  refine ⟨v ++ w, fun c hc => ?_, (List.append_assoc _ _ _).symm⟩
  rcases List.mem_append.1 hc with hc | hc
  · exact hv c hc
  · exact hw c hc

/-- More blanks may stand in front of what is behind a value. -/
theorem Skips.of_blanks {frame : Frame} {s t rest : List Char} (h : Skips (.behind frame) t rest)
    (hs : Blanks s t) : Skips (.behind frame) s rest := by
  cases h with
  | endList h => exact .endList (hs.trans h)
  | nextItem comma h item more => exact .nextItem (hs.trans comma) h item more
  | endObject h => exact .endObject (hs.trans h)
  | nextMember comma name h value more => exact .nextMember (hs.trans comma) name h value more

/-! ## One step -/

/-- Passes over a list, given the text after its opening bracket. -/
def skipList (fuel : Nat) (frames : List Frame) (s : List Char) : Except Failure (List Char) :=
  match skipSpace s with
  | ']' :: r => skipOn fuel frames r
  | [] => .error .endsEarly
  | r => skipIn fuel (.list :: frames) r

/-- Passes over what is left of an object, from the name of a member on. -/
def skipMember (fuel : Nat) (frames : List Frame) (s : List Char) : Except Failure (List Char) :=
  match skipName s with
  | .error e => .error e
  | .ok r => skipIn fuel (.object :: frames) r

/-- Passes over an object, given the text after its opening brace. -/
def skipObject (fuel : Nat) (frames : List Frame) (s : List Char) : Except Failure (List Char) :=
  match skipSpace s with
  | '\x7d' :: r => skipOn fuel frames r
  | [] => .error .endsEarly
  | r => skipMember fuel frames r

theorem skipIn_succ (fuel : Nat) (frames : List Frame) (s : List Char) :
    skipIn (fuel + 1) frames s =
      match skipSpace s with
      | '[' :: r => skipList fuel frames r
      | '\x7b' :: r => skipObject fuel frames r
      | r =>
        match skipScalar r with
        | .error e => .error e
        | .ok r => skipOn fuel frames r := rfl

theorem skipOn_succ (fuel : Nat) (frame : Frame) (frames : List Frame) (s : List Char) :
    skipOn (fuel + 1) (frame :: frames) s =
      match frame, skipSpace s with
      | _, [] => .error .endsEarly
      | .list, ']' :: r => skipOn fuel frames r
      | .object, '\x7d' :: r => skipOn fuel frames r
      | .list, ',' :: r => skipIn fuel (.list :: frames) r
      | .object, ',' :: r => skipMember fuel frames r
      | _, _ :: _ => .error .notJson := rfl

theorem skipMember_of_ok {s rest : List Char} (h : skipName s = .ok rest) (fuel : Nat)
    (frames : List Frame) :
    skipMember fuel frames s = skipIn fuel (.object :: frames) rest := by
  rw [skipMember, h]

theorem exists_of_skipMember {s r : List Char} {fuel : Nat} {frames : List Frame}
    (h : skipMember fuel frames s = .ok r) :
    ∃ t, MemberName s t ∧ skipIn fuel (.object :: frames) t = .ok r := by
  unfold skipMember at h
  split at h
  · cases h
  next t hname => exact ⟨t, skipName_eq_ok_iff.1 hname, h⟩

/-! ## What the grammar admits is passed over -/

/-- Passing over a part inside the given frames, and on to the end of the outermost one. -/
def go : Part → Nat → List Frame → List Char → Except Failure (List Char)
  | .value, fuel, frames, s => skipIn fuel frames s
  | .behind frame, fuel, frames, s => skipOn fuel (frame :: frames) s

theorem skipOn_nil (fuel : Nat) (s : List Char) : skipOn fuel [] s = .ok s := by
  cases fuel <;> rfl

/-- Blanks in front of a value play no part. -/
theorem skipIn_of_blanks {s t : List Char} (h : Blanks s t) (ht : NoBlank t) (fuel : Nat)
    (frames : List Frame) : skipIn fuel frames s = skipIn fuel frames t := by
  cases fuel with
  | zero => rfl
  | succ fuel => rw [skipIn_succ, skipIn_succ, h.skipSpace ht, skipSpace_of_noBlank ht]

theorem skipIn_scalar {s rest : List Char} (h : skipScalar s = .ok rest) (hs : NoBlank s)
    (hlist : ∀ r, s ≠ '[' :: r) (hobject : ∀ r, s ≠ '\x7b' :: r) (fuel : Nat)
    (frames : List Frame) : skipIn (fuel + 1) frames s = skipOn fuel frames rest := by
  rw [skipIn_succ, skipSpace_of_noBlank hs]
  split
  · next r => exact absurd rfl (hlist r)
  · next r => exact absurd rfl (hobject r)
  · rw [h]

/-- A number without a sign is passed over as a scalar. -/
theorem skipScalar_number {lit rest : List Char} (h : Number lit) (hrest : Delimited rest) :
    skipScalar (lit ++ rest) = .ok rest := by
  rcases numeral_of_number h hrest .notJson with ⟨n, hn⟩
  rcases h.exists_digit with ⟨d, more, rfl, hd⟩
  have hother {c : Char} (hc : c.isDigit = false) : d ≠ c := by
    rintro rfl
    rw [hd] at hc
    cases hc
  rw [List.cons_append] at hn ⊢
  unfold skipScalar
  split
  · next heq => cases heq
  · next heq => exact absurd (List.cons.inj heq).1 (hother (by decide))
  · next heq => exact absurd (List.cons.inj heq).1 (hother (by decide))
  · next heq => exact absurd (List.cons.inj heq).1 (hother (by decide))
  · next heq => exact absurd (List.cons.inj heq).1 (hother (by decide))
  · next heq => exact absurd (List.cons.inj heq).1 (hother (by decide))
  · next heq =>
    cases heq
    rw [if_pos hd, hn]
    rfl

/-- What is passed over as a scalar is a value. -/
theorem skips_of_skipScalar {s rest : List Char} (h : skipScalar s = .ok rest) :
    Skips .value s rest := by
  unfold skipScalar at h
  split at h
  · cases h
  · rw [word_eq_ok_iff.1 h]
    exact .null rest
  · rw [word_eq_ok_iff.1 h]
    exact .true rest
  · rw [word_eq_ok_iff.1 h]
    exact .false rest
  · next r =>
    cases hread : numeral .notJson r with
    | error e =>
      rw [hread] at h
      cases h
    | ok found =>
      rcases found with ⟨n, r'⟩
      rw [hread] at h
      cases h
      rcases exists_of_numeral hread with ⟨lit, hlit, rfl⟩
      exact .negative hlit _
  · exact .string (skipString_eq_ok_iff.1 h)
  · next c r _ _ _ _ _ =>
    split at h
    · cases hread : numeral .notJson (c :: r) with
      | error e =>
        rw [hread] at h
        cases h
      | ok found =>
        rcases found with ⟨n, r'⟩
        rw [hread] at h
        cases h
        rcases exists_of_numeral hread with ⟨lit, hlit, heq⟩
        rw [heq]
        exact .number hlit _
    · cases h

theorem Blanks.length_le {s t : List Char} (h : Blanks s t) : t.length ≤ s.length := by
  rcases h with ⟨w, -, rfl⟩
  rw [List.length_append]
  exact Nat.le_add_left _ _

theorem Blanks.length_lt {c : Char} {s t : List Char} (h : Blanks s (c :: t)) :
    t.length < s.length := h.length_le

theorem length_lt_append (w rest : List Char) (hw : w ≠ []) : rest.length < (w ++ rest).length := by
  have hlength := List.length_pos_iff.2 hw
  rw [List.length_append]
  omega

theorem Passed.length_lt {s rest : List Char} (h : Passed s rest) : rest.length < s.length :=
  skipString_length (skipString_eq_ok_iff.2 h)

theorem MemberName.length_lt {s rest : List Char} (h : MemberName s rest) :
    rest.length < s.length := by
  rcases h with ⟨t, u, hquote, hname, hcolon⟩
  exact Nat.lt_trans hcolon.length_lt (Nat.lt_trans hname.length_lt hquote.length_lt)

/-! ### One step over brackets and commas -/

section Steps

variable {s t u rest : List Char} (fuel : Nat) (frames : List Frame)

theorem skipIn_emptyList (h : Blanks s (']' :: rest)) :
    skipIn (fuel + 1) frames ('[' :: s) = skipOn fuel frames rest := by
  change skipList fuel frames s = _
  rw [skipList, h.skipSpace (.cons (by decide) rest)]
  rfl

theorem skipIn_list (h : Blanks s t) (first : Skips .value t u) :
    skipIn (fuel + 1) frames ('[' :: s) = skipIn fuel (.list :: frames) t := by
  rcases first.exists_head with ⟨c, t', rfl, hc⟩
  change skipList fuel frames s = _
  rw [skipList, h.skipSpace first.noBlank]
  split
  · next heq =>
    rw [(List.cons.inj heq).1] at hc
    exact absurd (by decide) hc
  · next heq => cases heq
  · rfl

theorem skipIn_emptyObject (h : Blanks s ('\x7d' :: rest)) :
    skipIn (fuel + 1) frames ('\x7b' :: s) = skipOn fuel frames rest := by
  change skipObject fuel frames s = _
  rw [skipObject, h.skipSpace (.cons (by decide) rest)]
  rfl

theorem skipIn_object (name : MemberName s t) (h : Blanks t u) (first : Skips .value u rest) :
    skipIn (fuel + 1) frames ('\x7b' :: s) = skipIn fuel (.object :: frames) u := by
  rcases name.skipSpace with ⟨hmember, r, hr⟩
  rw [hr] at hmember
  rw [← skipIn_of_blanks h first.noBlank, ← skipMember_of_ok (skipName_eq_ok_iff.2 hmember)]
  change skipObject fuel frames s = _
  rw [skipObject, hr]
  rfl

theorem skipOn_endList (h : Blanks s (']' :: rest)) :
    skipOn (fuel + 1) (.list :: frames) s = skipOn fuel frames rest := by
  rw [skipOn_succ, h.skipSpace (.cons (by decide) rest)]
  rfl

theorem skipOn_nextItem (comma : Blanks s (',' :: t)) (h : Blanks t u)
    (item : Skips .value u rest) :
    skipOn (fuel + 1) (.list :: frames) s = skipIn fuel (.list :: frames) u := by
  rw [← skipIn_of_blanks h item.noBlank, skipOn_succ, comma.skipSpace (.cons (by decide) t)]
  rfl

theorem skipOn_endObject (h : Blanks s ('\x7d' :: rest)) :
    skipOn (fuel + 1) (.object :: frames) s = skipOn fuel frames rest := by
  rw [skipOn_succ, h.skipSpace (.cons (by decide) rest)]
  rfl

theorem skipOn_nextMember {v : List Char} (comma : Blanks s (',' :: t)) (name : MemberName t u)
    (h : Blanks u v) (value : Skips .value v rest) :
    skipOn (fuel + 1) (.object :: frames) s = skipIn fuel (.object :: frames) v := by
  rw [← skipIn_of_blanks h value.noBlank, ← skipMember_of_ok (skipName_eq_ok_iff.2 name),
    skipOn_succ, comma.skipSpace (.cons (by decide) t)]
  rfl

end Steps

/-- A part is passed over in a number of steps that its length bounds, and then what encloses
it is gone on with. -/
def PassesOver (part : Part) (s rest : List Char) : Prop :=
  ∃ k, k + rest.length ≤ s.length ∧
    ∀ fuel frames, go part (fuel + k) frames s = skipOn fuel frames rest

theorem PassesOver.step {part : Part} {s rest : List Char} (hlength : rest.length < s.length)
    (hstep : ∀ fuel frames, go part (fuel + 1) frames s = skipOn fuel frames rest) :
    PassesOver part s rest :=
  ⟨1, by omega, hstep⟩

/-- A scalar takes one step. -/
theorem PassesOver.scalar {s rest : List Char} (h : skipScalar s = .ok rest) (hs : NoBlank s)
    (hlist : ∀ r, s ≠ '[' :: r) (hobject : ∀ r, s ≠ '\x7b' :: r)
    (hlength : rest.length < s.length) : PassesOver .value s rest :=
  .step hlength (skipIn_scalar h hs hlist hobject)

/-- A part with a value in it takes one step to the value, and then those of both. -/
theorem PassesOver.within {part : Part} {frame : Frame} {s t u rest : List Char}
    (hlength : t.length < s.length)
    (hopen : ∀ fuel frames, go part (fuel + 1) frames s = skipIn fuel (frame :: frames) t)
    (value : PassesOver .value t u) (behind : PassesOver (.behind frame) u rest) :
    PassesOver part s rest := by
  rcases value with ⟨k, hk, hvalue⟩
  rcases behind with ⟨m, hm, hbehind⟩
  refine ⟨m + k + 1, by omega, fun fuel frames => ?_⟩
  rw [show fuel + (m + k + 1) = (fuel + m + k) + 1 by omega, hopen]
  exact (hvalue (fuel + m) (frame :: frames)).trans (hbehind fuel frames)

/-- What the grammar admits is passed over where the text behind it is delimited. -/
theorem Skips.passesOver {part : Part} {s rest : List Char} (h : Skips part s rest)
    (hrest : Delimited rest) : PassesOver part s rest := by
  induction h with
  | null rest =>
    have hlength := length_lt_append ['n', 'u', 'l', 'l'] rest nofun
    exact .scalar rfl (.cons (by decide) _) nofun nofun hlength
  | true rest =>
    have hlength := length_lt_append ['t', 'r', 'u', 'e'] rest nofun
    exact .scalar rfl (.cons (by decide) _) nofun nofun hlength
  | false rest =>
    have hlength := length_lt_append ['f', 'a', 'l', 's', 'e'] rest nofun
    exact .scalar rfl (.cons (by decide) _) nofun nofun hlength
  | number h rest =>
    have hread := skipScalar_number h hrest
    have hblank := (Skips.number h rest).noBlank
    rcases h.exists_digit with ⟨d, more, rfl, hd⟩
    refine .scalar hread hblank ?_ ?_ (length_lt_append (d :: more) rest nofun)
    · intro r heq
      rw [(List.cons.inj heq).1] at hd
      exact absurd hd (by decide)
    · intro r heq
      rw [(List.cons.inj heq).1] at hd
      exact absurd hd (by decide)
  | @negative lit h rest =>
    rcases numeral_of_number h hrest .notJson with ⟨n, hn⟩
    have hread : skipScalar ('-' :: (lit ++ rest)) = .ok rest := by
      rw [skipScalar, hn]
      rfl
    exact .scalar hread (.cons (by decide) _) nofun nofun (length_lt_append ('-' :: lit) rest nofun)
  | @string s rest h =>
    have hread : skipScalar ('"' :: s) = .ok rest := skipString_eq_ok_iff.2 h
    exact .scalar hread (.cons (by decide) _) nofun nofun (Nat.lt_succ_of_lt h.length_lt)
  | emptyList h =>
    exact .step (Nat.lt_succ_of_lt h.length_lt) fun fuel frames => skipIn_emptyList fuel frames h
  | list h first more ihfirst ihmore =>
    exact .within (Nat.lt_succ_of_le h.length_le)
      (fun fuel frames => skipIn_list fuel frames h first) (ihfirst more.delimited) (ihmore hrest)
  | emptyObject h =>
    exact .step (Nat.lt_succ_of_lt h.length_lt) fun fuel frames => skipIn_emptyObject fuel frames h
  | object name h first more ihfirst ihmore =>
    exact .within (Nat.lt_succ_of_le (Nat.le_trans h.length_le (Nat.le_of_lt name.length_lt)))
      (fun fuel frames => skipIn_object fuel frames name h first) (ihfirst more.delimited)
      (ihmore hrest)
  | endList h => exact .step h.length_lt fun fuel frames => skipOn_endList fuel frames h
  | nextItem comma h item more ihitem ihmore =>
    exact .within (Nat.lt_of_le_of_lt h.length_le comma.length_lt)
      (fun fuel frames => skipOn_nextItem fuel frames comma h item) (ihitem more.delimited)
      (ihmore hrest)
  | endObject h => exact .step h.length_lt fun fuel frames => skipOn_endObject fuel frames h
  | nextMember comma name h value more ihvalue ihmore =>
    exact .within (Nat.lt_of_le_of_lt h.length_le (Nat.lt_trans name.length_lt comma.length_lt))
      (fun fuel frames => skipOn_nextMember fuel frames comma name h value)
      (ihvalue more.delimited) (ihmore hrest)

/-- A value behind blanks is passed over. -/
theorem skip_of_skips {s t rest : List Char} (h : Blanks s t) (value : Skips .value t rest)
    (hrest : Delimited rest) : skip s = .ok rest := by
  rcases value.passesOver hrest with ⟨k, hk, hgo⟩
  have hlength := h.length_le
  rw [skip, skipIn_of_blanks h value.noBlank,
    show 2 * s.length + 2 = (2 * s.length + 2 - k) + k by omega]
  exact (hgo _ []).trans (skipOn_nil _ _)

/-! ## What is passed over is admitted by the grammar -/

/-- A part stands at the front of a text, behind blanks, and what encloses it is gone on with
behind it, in fewer steps. -/
def BeginsWith (part : Part) (fuel : Nat) (frames : List Frame) (s r : List Char) : Prop :=
  ∃ t rest fuel', Blanks s t ∧ Skips part t rest ∧ fuel' < fuel ∧ skipOn fuel' frames rest = .ok r

section Inside

variable {fuel : Nat} {frames : List Frame} {s r : List Char}

/-- A value and what stands behind it, both passed over. -/
theorem exists_inside {frame : Frame}
    (ih : ∀ n < fuel, ∀ (part : Part) (frames : List Frame) (s : List Char),
      go part n frames s = .ok r → BeginsWith part n frames s r)
    {n : Nat} (hn : n < fuel) (h : skipIn n (frame :: frames) s = .ok r) :
    ∃ u v rest m, Blanks s u ∧ Skips .value u v ∧ Skips (.behind frame) v rest ∧ m < fuel ∧
      skipOn m frames rest = .ok r := by
  rcases ih n hn .value (frame :: frames) s h with ⟨u, v, k, hu, hvalue, hk, hbehind⟩
  rcases ih k (Nat.lt_trans hk hn) (.behind frame) frames v hbehind with
    ⟨v', rest, m, hv, hmore, hm, hrest⟩
  exact ⟨u, v, rest, m, hu, hvalue, hmore.of_blanks hv, Nat.lt_trans hm (Nat.lt_trans hk hn), hrest⟩

variable (within : ∀ (frame : Frame) (t : List Char), skipIn fuel (frame :: frames) t = .ok r →
  ∃ u v rest m, Blanks t u ∧ Skips .value u v ∧ Skips (.behind frame) v rest ∧ m < fuel + 1 ∧
    skipOn m frames rest = .ok r)
include within

theorem beginsWith_value (h : skipIn (fuel + 1) frames s = .ok r) :
    BeginsWith .value (fuel + 1) frames s r := by
  rw [skipIn_succ] at h
  have hs := blanks_skipSpace s
  split at h
  · next t hopen =>
    rw [hopen] at hs
    have ht := blanks_skipSpace t
    unfold skipList at h
    split at h
    · next rest hclose =>
      rw [hclose] at ht
      exact ⟨_, rest, fuel, hs, .emptyList ht, Nat.lt_succ_self _, h⟩
    · cases h
    · rcases within _ _ h with ⟨u, v, rest, n, hu, hvalue, hmore, hn, hrest⟩
      exact ⟨_, rest, n, hs, .list (ht.trans hu) hvalue hmore, hn, hrest⟩
  · next t hopen =>
    rw [hopen] at hs
    have ht := blanks_skipSpace t
    unfold skipObject at h
    split at h
    · next rest hclose =>
      rw [hclose] at ht
      exact ⟨_, rest, fuel, hs, .emptyObject ht, Nat.lt_succ_self _, h⟩
    · cases h
    · rcases exists_of_skipMember h with ⟨u, hname, h⟩
      rcases within _ _ h with ⟨v, w, rest, n, hv, hvalue, hmore, hn, hrest⟩
      exact ⟨_, rest, n, hs, .object hname.of_skipSpace hv hvalue hmore, hn, hrest⟩
  · split at h
    · cases h
    next rest hscalar =>
    exact ⟨_, rest, fuel, hs, skips_of_skipScalar hscalar, Nat.lt_succ_self _, h⟩

theorem beginsWith_behind {frame : Frame} (h : skipOn (fuel + 1) (frame :: frames) s = .ok r) :
    BeginsWith (.behind frame) (fuel + 1) frames s r := by
  rw [skipOn_succ] at h
  have hs := blanks_skipSpace s
  split at h
  · cases h
  · next rest hclose =>
    rw [hclose] at hs
    exact ⟨s, rest, fuel, .refl s, .endList hs, Nat.lt_succ_self _, h⟩
  · next rest hclose =>
    rw [hclose] at hs
    exact ⟨s, rest, fuel, .refl s, .endObject hs, Nat.lt_succ_self _, h⟩
  · next t hcomma =>
    rw [hcomma] at hs
    rcases within _ _ h with ⟨u, v, rest, n, hu, hvalue, hmore, hn, hrest⟩
    exact ⟨s, rest, n, .refl s, .nextItem hs hu hvalue hmore, hn, hrest⟩
  · next t hcomma =>
    rw [hcomma] at hs
    rcases exists_of_skipMember h with ⟨u, hname, h⟩
    rcases within _ _ h with ⟨v, w, rest, n, hv, hvalue, hmore, hn, hrest⟩
    exact ⟨s, rest, n, .refl s, .nextMember hs hname hv hvalue hmore, hn, hrest⟩
  · cases h

end Inside

/-- What is passed over is admitted by the grammar. -/
theorem beginsWith_of_go {part : Part} {fuel : Nat} {frames : List Frame} {s r : List Char}
    (h : go part fuel frames s = .ok r) : BeginsWith part fuel frames s r := by
  -- a value takes a step, what stands behind it the steps that are left
  induction fuel using Nat.strongRecOn generalizing part frames s with
  | ind fuel ih =>
  cases fuel with
  | zero =>
    cases part <;> cases h
  | succ fuel =>
  have within (frame : Frame) (t : List Char) (h : skipIn fuel (frame :: frames) t = .ok r) :=
    exists_inside (fun n hn _ _ _ => ih n hn) (Nat.lt_succ_self fuel) h
  cases part with
  | value => exact beginsWith_value within h
  | behind frame => exact beginsWith_behind within h

/-- A text whose front is passed over has a value there, behind blanks. -/
theorem skips_of_skip {s rest : List Char} (h : skip s = .ok rest) :
    ∃ t, Blanks s t ∧ Skips .value t rest := by
  have hgo : go .value (2 * s.length + 2) [] s = .ok rest := h
  rcases beginsWith_of_go hgo with ⟨t, rest', fuel, ht, hvalue, -, hrest⟩
  rw [skipOn_nil] at hrest
  cases hrest
  exact ⟨t, ht, hvalue⟩

end MasterPackage.Json
