import MasterPackage.Location.Path

/-!
# Joined locations

A path that is no place of its own is put behind a directory.  The separators at the end of the
directory give way to a single one, and the segments that name the directory itself are left
out at the front of the path.  Only the separator of such a segment goes with it: if another
one follows, the path goes on with that, and two separators meet at the join.
-/

namespace MasterPackage.Location

/-- `b` is a directory without the separators at its end. -/
structure IsTrimmed (base b : List Char) : Prop where
  rest : ∃ seps, base = b ++ seps ∧ ∀ c ∈ seps, isSeparator c = true
  last : ∀ c, b.getLast? = some c → isSeparator c = false

/-- A scheme, its colon and two slashes, with nothing but separators behind them: an empty
authority and a root. -/
def IsRootUrl (d : List Char) : Prop :=
  ∃ s seps, isScheme s = true ∧ (∀ c ∈ seps, isSeparator c = true) ∧
    d = s ++ ':' :: '/' :: '/' :: seps

/-- The separator to put behind a directory: a backslash if the directory is a path that is
written with backslashes only, and else a slash. -/
def GoesWith (base : List Char) (sep : Char) : Prop :=
  (sep = '/' ∨ sep = '\\') ∧
    (sep = '\\' ↔ Chars.scheme? base = none ∧ '\\' ∈ base ∧ '/' ∉ base)

/-- A directory without the separators at its end, the separator that goes with it, and `r`. -/
def IsJoin (base r joined : List Char) : Prop :=
  ∃ b sep, IsTrimmed base b ∧ GoesWith base sep ∧ joined = b ++ sep :: r

/-- A segment that names the directory itself stands at the front of a path. -/
def BeginsHere (p : List Char) : Prop := ∃ sep r, isSeparator sep = true ∧ p = '.' :: sep :: r

/-- Segments that name the directory itself, each with one separator behind it. -/
inductive IsHereRun : List Char → Prop
  | nil : IsHereRun []
  | cons {sep : Char} {run : List Char} :
    isSeparator sep = true → IsHereRun run → IsHereRun ('.' :: sep :: run)

/-- Segments that name the directory itself, each with any number of separators behind it. -/
inductive IsRedundant : List Char → Prop
  | nil : IsRedundant []
  | cons {seps run : List Char} :
    seps ≠ [] → (∀ c ∈ seps, isSeparator c = true) → IsRedundant run →
    IsRedundant ('.' :: seps ++ run)

/-- A path is joined to a directory with a single separator between, and nothing is left out of
it but redundant segments at its front, with all their separators. -/
def JoinedOnce (base p joined : List Char) : Prop :=
  ∃ front r, p = front ++ r ∧ IsRedundant front ∧ ¬BeginsHere r ∧
    Chars.startsAtRoot r = false ∧ IsJoin base r joined

theorem IsHereRun.redundant {run : List Char} (h : IsHereRun run) : IsRedundant run := by
  induction h with
  | nil => exact .nil
  | @cons sep run hsep _ ih =>
    have hone : ∀ c ∈ [sep], isSeparator c = true := by simpa using hsep
    exact .cons (List.cons_ne_nil sep []) hone ih

namespace Chars

/-! ## Separators at the end -/

theorem trimSeparators_append (p : List Char) {seps : List Char}
    (h : ∀ c ∈ seps, isSeparator c = true) : trimSeparators (p ++ seps) = trimSeparators p := by
  unfold trimSeparators
  rw [List.reverse_append, List.dropWhile_append_of_pos]
  intro c hc
  exact h c (List.mem_reverse.1 hc)

theorem exists_separators (p : List Char) :
    ∃ seps, p = trimSeparators p ++ seps ∧ ∀ c ∈ seps, isSeparator c = true := by
  refine ⟨(p.reverse.takeWhile isSeparator).reverse, ?_, ?_⟩
  · rw [trimSeparators, ← List.reverse_append, List.takeWhile_append_dropWhile,
      List.reverse_reverse]
  · intro c hc
    exact List.all_eq_true.1 List.all_takeWhile c (List.mem_reverse.1 hc)

theorem trimSeparators_trimSeparators (p : List Char) :
    trimSeparators (trimSeparators p) = trimSeparators p := by
  rcases exists_separators p with ⟨seps, hp, hseps⟩
  have h := trimSeparators_append (trimSeparators p) hseps
  rw [← hp] at h
  exact h.symm

/-- A trimmed location does not end with a separator. -/
theorem not_isSeparator_of_trimSeparators {p t : List Char} {c : Char}
    (h : trimSeparators p = t ++ [c]) : isSeparator c = false := by
  have htrim := trimSeparators_trimSeparators p
  rw [h] at htrim
  cases hc : isSeparator c with
  | false => rfl
  | true =>
    rw [trimSeparators_append t (by simpa using hc)] at htrim
    rcases exists_separators t with ⟨seps, ht, -⟩
    have hlength := congrArg List.length ht
    rw [htrim] at hlength
    simp at hlength

theorem trimSeparators_concat (p : List Char) {c : Char} (hc : isSeparator c = false) :
    trimSeparators (p ++ [c]) = p ++ [c] := by
  unfold trimSeparators
  rw [List.reverse_append, List.reverse_singleton, List.singleton_append,
    List.dropWhile_cons_of_neg (by simp [hc])]
  simp

/-- Only the end of a location is trimmed. -/
theorem trimSeparators_append_left (p : List Char) {q : List Char} (hq : trimSeparators q ≠ []) :
    trimSeparators (p ++ q) = p ++ trimSeparators q := by
  obtain ⟨seps, hsplit, hseps⟩ := exists_separators q
  rcases List.eq_nil_or_concat (trimSeparators q) with hnil | ⟨t, c, hlast⟩
  · exact absurd hnil hq
  · rw [List.concat_eq_append] at hlast
    have hc := not_isSeparator_of_trimSeparators hlast
    calc trimSeparators (p ++ q) = trimSeparators (p ++ t ++ [c] ++ seps) := by
          rw [hsplit, hlast]
          simp
      _ = trimSeparators (p ++ t ++ [c]) := trimSeparators_append _ hseps
      _ = p ++ t ++ [c] := trimSeparators_concat _ hc
      _ = p ++ trimSeparators q := by rw [hlast, List.append_assoc]

/-- Nothing is trimmed in front of a character that is no separator. -/
theorem trimSeparators_behind (p : List Char) {c : Char} (hc : isSeparator c = false)
    (q : List Char) : trimSeparators (p ++ [c] ++ q) = p ++ [c] ++ trimSeparators q := by
  by_cases hnil : trimSeparators q = []
  · obtain ⟨seps, hsplit, hseps⟩ := exists_separators q
    rw [hnil, List.nil_append] at hsplit
    rw [← hsplit] at hseps
    rw [trimSeparators_append _ hseps, trimSeparators_concat _ hc, hnil, List.append_nil]
  · exact trimSeparators_append_left _ hnil

/-- A directory can be trimmed in one way only. -/
theorem isTrimmed_iff {base b : List Char} : IsTrimmed base b ↔ b = trimSeparators base := by
  constructor
  · intro h
    obtain ⟨seps, rfl, hseps⟩ := h.rest
    rw [trimSeparators_append b hseps]
    rcases List.eq_nil_or_concat b with rfl | ⟨t, c, hlast⟩
    · rfl
    · rw [List.concat_eq_append] at hlast
      rw [hlast, trimSeparators_concat t (h.last c (by simp [hlast]))]
  · intro hb
    rw [hb]
    refine ⟨exists_separators base, fun c hc => ?_⟩
    obtain ⟨t, ht⟩ := List.getLast?_eq_some_iff.1 hc
    exact not_isSeparator_of_trimSeparators ht

/-! ## Schemes -/

theorem scheme?_append {u s : List Char} (h : scheme? u = some s) (v : List Char) :
    scheme? (u ++ v) = some s := by
  rcases scheme?_eq_some_iff.1 h with ⟨hs, rest, rfl⟩
  exact scheme?_eq_some_iff.2 ⟨hs, rest ++ v, by simp⟩

theorem not_isSeparator_of_mem_scheme {s : List Char} (hs : isScheme s = true) {c : Char}
    (hc : c ∈ s ++ [':']) : isSeparator c = false := by
  rcases List.mem_append.1 hc with hc | hc
  · have hchar := all_isSchemeChar hs c hc
    cases hsep : isSeparator c with
    | false => rfl
    | true =>
      rw [isSeparator, Bool.or_eq_true, beq_iff_eq, beq_iff_eq] at hsep
      rcases hsep with rfl | rfl
      · exact absurd hchar (by decide)
      · exact absurd hchar (by decide)
  · rw [List.mem_singleton.1 hc]
    decide

/-- A scheme ends in front of every separator. -/
theorem scheme?_behind_separator {t f s : List Char} {sep : Char} (hsep : isSeparator sep = true)
    (h : scheme? (t ++ sep :: f) = some s) : ∃ r, t = s ++ ':' :: r := by
  rcases scheme?_eq_some_iff.1 h with ⟨hs, rest, heq⟩
  have heq' : t ++ sep :: f = (s ++ [':']) ++ rest := by
    rw [heq, List.append_assoc]
    rfl
  rcases List.append_eq_append_iff.1 heq' with ⟨a, hhead, htail⟩ | ⟨a, rfl, -⟩
  · cases a with
    | nil =>
      rw [List.append_nil] at hhead
      exact ⟨[], hhead.symm⟩
    | cons c a =>
      have hmem : sep ∈ s ++ [':'] := by
        rw [hhead, (List.cons.inj htail).1]
        simp
      rw [not_isSeparator_of_mem_scheme hs hmem] at hsep
      cases hsep
  · exact ⟨a, by simp⟩

/-- What follows a separator has no part in the scheme. -/
theorem scheme?_append_separator {sep : Char} (hsep : isSeparator sep = true) (t f : List Char) :
    scheme? (t ++ sep :: f) = scheme? t := by
  cases hscheme : scheme? t with
  | some s => exact scheme?_append hscheme _
  | none =>
    rw [Option.eq_none_iff_forall_ne_some]
    intro s hs
    obtain ⟨r, hr⟩ := scheme?_behind_separator hsep hs
    have hsome : scheme? t = some s := scheme?_eq_some_iff.2 ⟨(scheme?_eq_some_iff.1 hs).1, r, hr⟩
    rw [hscheme] at hsome
    cases hsome

theorem scheme?_trimSeparators (p : List Char) : scheme? (trimSeparators p) = scheme? p := by
  obtain ⟨seps, hparts, hseps⟩ := exists_separators p
  cases seps with
  | nil => rw [← List.append_nil (trimSeparators p), ← hparts]
  | cons sep seps =>
    have hsep : isSeparator sep = true := hseps sep (List.mem_cons_self ..)
    have hscheme := scheme?_append_separator hsep (trimSeparators p) seps
    rw [← hparts] at hscheme
    exact hscheme.symm

theorem drop_colon (s rest : List Char) : (s ++ ':' :: rest).drop (s.length + 1) = rest := by
  rw [List.append_cons]
  exact List.drop_left' (by simp)

/-- A URL without a path of its own is trimmed down to its scheme. -/
theorem trimSeparators_scheme {s seps : List Char} (hseps : ∀ c ∈ seps, isSeparator c = true) :
    trimSeparators (s ++ ':' :: seps) = s ++ [':'] := by
  rw [List.append_cons, trimSeparators_append _ hseps, trimSeparators_concat s (by decide)]

theorem isRootUrl_iff {d : List Char} : isRootUrl d (trimSeparators d) = true ↔ IsRootUrl d := by
  constructor
  · intro h
    unfold isRootUrl at h
    split at h
    · next s hs =>
      rw [Bool.and_eq_true, beq_iff_eq, List.isPrefixOf_iff_prefix] at h
      obtain ⟨hlength, hslashes⟩ := h
      obtain ⟨seps, hparts, hseps⟩ := exists_separators d
      obtain ⟨hscheme, rest, hrest⟩ := scheme?_eq_some_iff.1 hs
      have htrimmed : trimSeparators d = s ++ [':'] ∧ seps = rest := by
        apply List.append_inj _ (by simpa using hlength)
        rw [← hparts, hrest]
        simp
      have hdrop : d.drop (trimSeparators d).length = rest := by
        rw [hlength, hrest, drop_colon]
      rw [hdrop] at hslashes
      obtain ⟨more, rfl⟩ := hslashes
      rw [htrimmed.2] at hseps
      exact ⟨s, more, hscheme, fun c hc => hseps c (List.mem_append_right _ hc), hrest⟩
    · cases h
  · intro hroot
    obtain ⟨s, seps, hs, hseps, rfl⟩ := hroot
    have hslashes : ∀ c ∈ '/' :: '/' :: seps, isSeparator c = true := by
      simpa [isSeparator] using hseps
    have hscheme : scheme? (s ++ ':' :: '/' :: '/' :: seps) = some s :=
      scheme?_eq_some_iff.2 ⟨hs, '/' :: '/' :: seps, rfl⟩
    have hlength : (s ++ [':']).length = s.length + 1 := by simp
    rw [trimSeparators_scheme hslashes, isRootUrl, hscheme]
    simp only [hlength, drop_colon, BEq.rfl, Bool.true_and]
    rfl

/-! ## Segments that name the directory itself -/

theorem exists_hereRun (p : List Char) : ∃ front, IsHereRun front ∧ p = front ++ dropHere p := by
  fun_induction dropHere p with
  | case1 sep p hsep ih =>
    obtain ⟨front, hfront, hp⟩ := ih
    exact ⟨'.' :: sep :: front, .cons hsep hfront, by rw [List.cons_append, List.cons_append, ← hp]⟩
  | case2 => exact ⟨[], .nil, rfl⟩
  | case3 => exact ⟨[], .nil, rfl⟩

theorem not_beginsHere_dropHere (p : List Char) : ¬BeginsHere (dropHere p) := by
  fun_induction dropHere p with
  | case1 sep p hsep ih => exact ih
  | case2 c p hsep =>
    intro hbegins
    obtain ⟨sep, r, hc, heq⟩ := hbegins
    rw [(List.cons.inj (List.cons.inj heq).2).1] at hsep
    exact hsep hc
  | case3 p hother =>
    intro hbegins
    obtain ⟨sep, r, -, heq⟩ := hbegins
    exact hother sep r heq

theorem dropHere_append {front : List Char} (hfront : IsHereRun front) (p : List Char) :
    dropHere (front ++ p) = dropHere p := by
  induction hfront with
  | nil => rfl
  | cons hsep _ ih => rw [List.cons_append, List.cons_append, dropHere, if_pos hsep, ih]

/-! ## Joins -/

theorem isSeparator_joiner (d : List Char) : isSeparator (joiner d) = true := by
  unfold joiner
  split <;> decide

theorem goesWith_iff {base : List Char} {sep : Char} : GoesWith base sep ↔ sep = joiner base := by
  unfold GoesWith joiner
  simp only [Bool.and_eq_true, Option.isNone_iff_eq_none, List.contains_eq_mem, decide_eq_true_eq,
    Bool.not_eq_true', decide_eq_false_iff_not, and_assoc]
  by_cases hbackslash : scheme? base = none ∧ '\\' ∈ base ∧ '/' ∉ base
  · rw [if_pos hbackslash]
    constructor
    · exact fun h => h.2.2 hbackslash
    · intro hsep
      exact ⟨.inr hsep, iff_of_true hsep hbackslash⟩
  · rw [if_neg hbackslash]
    constructor
    · exact fun h => h.1.resolve_right fun heq => hbackslash (h.2.1 heq)
    · intro hsep
      exact ⟨.inl hsep, iff_of_false (by rw [hsep]; decide) hbackslash⟩

theorem isJoin_iff {base r joined : List Char} :
    IsJoin base r joined ↔ joined = trimSeparators base ++ joiner base :: r := by
  constructor
  · intro hjoin
    obtain ⟨b, sep, hb, hsep, hjoined⟩ := hjoin
    rw [isTrimmed_iff.1 hb, goesWith_iff.1 hsep] at hjoined
    exact hjoined
  · intro hjoined
    exact ⟨trimSeparators base, joiner base, isTrimmed_iff.2 rfl, goesWith_iff.2 rfl, hjoined⟩

theorem resolve_nil (p : List Char) : resolve [] p = resolve ['.'] p := by
  unfold resolve
  rw [if_pos rfl, if_neg (List.cons_ne_nil _ _)]

section

variable {base p : List Char}

/-- A path leads behind its directory, with one separator between unless the slashes of a root
stand there already. -/
theorem resolve_of_relative (hbase : base ≠ []) (relative : isAbsolute p = false) :
    resolve base p =
      if isRootUrl base (trimSeparators base) then base ++ dropHere p
      else trimSeparators base ++ joiner base :: dropHere p := by
  unfold resolve
  rw [relative, if_neg Bool.false_ne_true, if_neg hbase]
  dsimp only
  split
  · next hnil =>
    have hroot : isRootUrl base [] = false := by
      unfold isRootUrl
      cases scheme? base <;> simp
    rw [hnil, hroot]
    rfl
  · rfl

theorem isJoin_resolve (hbase : base ≠ []) (place : ¬IsRootUrl base)
    (relative : isAbsolute p = false) : IsJoin base (dropHere p) (resolve base p) := by
  rw [isJoin_iff, resolve_of_relative hbase relative, if_neg fun h => place (isRootUrl_iff.1 h)]

/-- Two separators meet if what is left of the path begins with one, and only then. -/
theorem joinedOnce_resolve_iff (hbase : base ≠ []) (place : ¬IsRootUrl base)
    (relative : isAbsolute p = false) :
    JoinedOnce base p (resolve base p) ↔ startsAtRoot (dropHere p) = false := by
  have hjoin := isJoin_resolve hbase place relative
  constructor
  · intro honce
    obtain ⟨front, r, -, -, -, hroot, hr⟩ := honce
    rw [isJoin_iff.1 hjoin] at hr
    have hrest := List.append_cancel_left (isJoin_iff.1 hr)
    rw [(List.cons.inj hrest).2]
    exact hroot
  · intro hroot
    obtain ⟨front, hfront, hp⟩ := exists_hereRun p
    exact ⟨front, dropHere p, hp, hfront.redundant, not_beginsHere_dropHere p, hroot, hjoin⟩

end

end Chars

instance (d : List Char) : Decidable (IsRootUrl d) := decidable_of_iff _ Chars.isRootUrl_iff

/-! ## Every directory and path -/

theorem toList_resolve (base p : String) :
    (resolve base p).toList = Chars.resolve base.toList p.toList := String.toList_ofList

/-- A path that is not absolute leads to its directory without the separators at the end, the
separator that goes with the directory, and the path without the segments at its front that
name the directory itself; the rest of the path is kept as it is.  That is a join with a single
separator exactly if the path does not go on with another separator behind these segments. -/
theorem resolve_with_one_separator {base p : String} (hbase : base ≠ "")
    (place : ¬IsRootUrl base.toList) (relative : isAbsolute p = false) :
    ∃ front r, p.toList = front ++ r ∧ IsHereRun front ∧ ¬BeginsHere r ∧
      IsJoin base.toList r (resolve base p).toList ∧
      (JoinedOnce base.toList p.toList (resolve base p).toList ↔
        Chars.startsAtRoot r = false) := by
  have hne : base.toList ≠ [] := by
    rw [ne_eq, String.toList_eq_nil_iff]
    exact hbase
  obtain ⟨front, hfront, hp⟩ := Chars.exists_hereRun p.toList
  rw [toList_resolve]
  exact ⟨front, Chars.dropHere p.toList, hp, hfront, Chars.not_beginsHere_dropHere p.toList,
    Chars.isJoin_resolve hne place relative, Chars.joinedOnce_resolve_iff hne place relative⟩

/-- A directory with backslashes only, and a path that goes to the parent and ends with what
would be a query. -/
theorem resolve_with_one_backslash :
    JoinedOnce "D:\\p\\".toList ".\\./..\\v?x#y".toList
      (resolve "D:\\p\\" ".\\./..\\v?x#y").toList := by
  obtain ⟨front, r, -, -, -, hjoin, honce⟩ :=
    @resolve_with_one_separator "D:\\p\\" ".\\./..\\v?x#y" (by decide) (by decide) (by decide)
  have hplace : (resolve "D:\\p\\" ".\\./..\\v?x#y").toList =
      Chars.trimSeparators "D:\\p\\".toList ++
        Chars.joiner "D:\\p\\".toList :: "..\\v?x#y".toList := by decide
  have hrest := List.append_cancel_left ((Chars.isJoin_iff.1 hjoin).symm.trans hplace)
  rw [honce, (List.cons.inj hrest).2]
  decide

/-- Two separators meet where a path has another one behind the segment for its directory. -/
theorem resolve_with_two_separators :
    "/pkg" ≠ "" ∧ ¬IsRootUrl "/pkg".toList ∧ isAbsolute ".//video.mxf" = false ∧
      resolve "/pkg" ".//video.mxf" = "/pkg//video.mxf" ∧
      ¬JoinedOnce "/pkg".toList ".//video.mxf".toList (resolve "/pkg" ".//video.mxf").toList := by
  refine ⟨by decide, by decide, by decide, by decide, ?_⟩
  rw [toList_resolve, Chars.joinedOnce_resolve_iff (by decide) (by decide) (by decide)]
  decide

end MasterPackage.Location
