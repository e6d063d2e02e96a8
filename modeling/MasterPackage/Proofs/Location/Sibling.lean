import MasterPackage.Settings
import MasterPackage.Proofs.Location.Absoluteness

/-!
# Files in one directory

A file that is named beside another one lies in the directory of that one: the directory
of a location, with a name put behind it, is the directory of the new location too, up to
separators at the end.  The query and the fragment of a URL take no part in this.
-/

namespace MasterPackage.Location

/-- A name that can be put behind a directory: it says something, and nothing in it ends a
segment or the path of a URL. -/
structure IsName (f : List Char) : Prop where
  ne_nil : f ≠ []
  no_separator : ∀ c ∈ f, isSeparator c = false
  no_end : ∀ c ∈ f, endsUrlPath c = false

/-- A scheme and two slashes, with nothing behind them. -/
def IsBareAuthority (d : List Char) : Prop := ∃ s, isScheme s = true ∧ d = s ++ [':', '/', '/']

namespace Chars

/-! ## Directories -/

theorem startsAuthority_iff {p : List Char} :
    startsAuthority p = true ↔ ∃ rest, p = '/' :: '/' :: rest := by
  rw [startsAuthority, List.isPrefixOf_iff_prefix]
  constructor
  · intro h
    obtain ⟨rest, hrest⟩ := h
    exact ⟨rest, hrest.symm⟩
  · intro h
    obtain ⟨rest, hrest⟩ := h
    exact ⟨rest, hrest.symm⟩

theorem plain_of_mem_scheme {s : List Char} (hs : isScheme s = true) {c : Char} (hc : c ∈ s) :
    endsUrlPath c = false := by
  have hchar := all_isSchemeChar hs c hc
  simp only [endsUrlPath, Bool.or_eq_false_iff, beq_eq_false_iff_ne]
  constructor
  · rintro rfl
    exact absurd hchar (by decide)
  · rintro rfl
    exact absurd hchar (by decide)

/-- A location has no separator, or it is cut at the last one. -/
theorem separators_cases (p : List Char) :
    (∀ c ∈ p, isSeparator c = false) ∨
      ∃ before sep after, p = before ++ sep :: after ∧ isSeparator sep = true ∧
        ∀ c ∈ after, isSeparator c = false := by
  cases hcut : cutLast? p with
  | none => exact .inl (cutLast?_eq_none_iff.1 hcut)
  | some parts =>
    obtain ⟨before, sep, after⟩ := parts
    exact .inr ⟨before, sep, after, cutLast?_eq_some_iff.1 hcut⟩

section

variable {u before after : List Char} {sep : Char}

theorem directory_of_no_separator (hnone : ∀ c ∈ withoutQuery u, isSeparator c = false) :
    directory u = ['.'] := by
  unfold directory
  simp only [cutLast?_eq_none_iff.2 hnone]

/-- The directory of a location, by what stands before its last separator. -/
theorem directory_of_last (hpath : withoutQuery u = before ++ sep :: after)
    (hsep : isSeparator sep = true) (hafter : ∀ c ∈ after, isSeparator c = false) :
    directory u =
      if endsInAuthority (withoutQuery u) before then withoutQuery u
      else if endsAtRoot (withoutQuery u) before then before ++ [sep]
      else before := by
  unfold directory
  simp only [hpath, cutLast?_append hsep hafter]

/-- Behind the authority of a URL, the directory is what stands before the last separator, up to
separators at the end. -/
theorem trimSeparators_directory (hsep : isSeparator sep = true)
    (hafter : ∀ c ∈ after, isSeparator c = false)
    (hquery : withoutQuery (before ++ sep :: after) = before ++ sep :: after)
    (houtside : endsInAuthority (before ++ sep :: after) before = false) :
    trimSeparators (directory (before ++ sep :: after)) = trimSeparators before := by
  rw [directory_of_last hquery hsep hafter, hquery, houtside, if_neg Bool.false_ne_true]
  split
  · exact trimSeparators_append before (by simpa using hsep)
  · rfl

end

/-- A directory is the current one, or a beginning of the location. -/
theorem directory_prefix (u : List Char) :
    directory u = ['.'] ∨ directory u <+: withoutQuery u := by
  rcases separators_cases (withoutQuery u) with hnone | ⟨before, sep, after, hpath, hsep, hafter⟩
  · exact .inl (directory_of_no_separator hnone)
  · right
    rw [directory_of_last hpath hsep hafter]
    split
    · exact List.prefix_rfl
    split
    · exact ⟨after, by simp [hpath]⟩
    · exact ⟨sep :: after, hpath.symm⟩

/-- With a scheme it is not the current one. -/
theorem directory_prefix_of_scheme {u s : List Char} (hscheme : scheme? (directory u) = some s) :
    directory u <+: withoutQuery u := by
  rcases directory_prefix u with hhere | hprefix
  · rw [hhere] at hscheme
    cases hscheme
  · exact hprefix

theorem directory_ne_nil (u : List Char) : directory u ≠ [] := by
  rcases separators_cases (withoutQuery u) with hnone | ⟨before, sep, after, hpath, hsep, hafter⟩
  · rw [directory_of_no_separator hnone]
    exact List.cons_ne_nil _ _
  · rw [directory_of_last hpath hsep hafter]
    split
    · simp [hpath]
    split
    · simp
    · next hroot =>
      intro hnil
      rw [hnil] at hroot
      exact hroot rfl

/-! ## Names -/

section

variable {f : List Char}

theorem dropHere_name (hf : IsName f) : dropHere f = f := by
  unfold dropHere
  split
  · next c p =>
    rw [if_neg]
    simp [hf.no_separator c (by simp)]
  · rfl

/-- A name goes behind a directory with one separator between, or behind the slashes of a
root. -/
theorem resolve_name (hf : IsName f) (relative : isAbsolute f = false) {d : List Char}
    (hd : d ≠ []) :
    resolve d f =
      if isRootUrl d (trimSeparators d) then d ++ f else trimSeparators d ++ joiner d :: f := by
  rw [resolve_of_relative hd relative, dropHere_name hf]

theorem withoutQuery_eq_self {p : List Char}
    (h : (scheme? p).isSome = true → ∀ c ∈ p, endsUrlPath c = false) : withoutQuery p = p := by
  unfold withoutQuery
  split
  · next hscheme =>
    have hkeep : ∀ c ∈ p, (!endsUrlPath c) = true := by
      intro c hc
      rw [h hscheme c hc]
      rfl
    have htake : (p ++ []).takeWhile (fun c => !endsUrlPath c) = p ++ [].takeWhile _ :=
      List.takeWhile_append_of_pos hkeep
    rwa [List.takeWhile_nil, List.append_nil] at htake
  · rfl

/-- The characters of a location in a directory are those of the directory and of the name,
and a separator. -/
theorem mem_resolve_name (hf : IsName f) (relative : isAbsolute f = false) {d : List Char}
    (hd : d ≠ []) {c : Char} (hc : c ∈ resolve d f) : c ∈ d ∨ c ∈ f ∨ isSeparator c = true := by
  rw [resolve_name hf relative hd] at hc
  split at hc
  · rcases List.mem_append.1 hc with hc | hc
    · exact .inl hc
    · exact .inr (.inl hc)
  · rcases List.mem_append.1 hc with hc | hc
    · rcases exists_separators d with ⟨seps, hparts, -⟩
      rw [hparts]
      exact .inl (List.mem_append_left seps hc)
    rcases List.mem_cons.1 hc with hc | hc
    · right
      right
      rw [hc]
      exact isSeparator_joiner d
    · exact .inr (.inl hc)

/-- A location in the directory of another has no query and no fragment. -/
theorem withoutQuery_sibling (hf : IsName f) (relative : isAbsolute f = false) (u : List Char) :
    withoutQuery (resolve (directory u) f) = resolve (directory u) f := by
  apply withoutQuery_eq_self
  intro hscheme c hc
  obtain ⟨s, hs⟩ := Option.isSome_iff_exists.1 hscheme
  have hd : directory u ≠ [] := directory_ne_nil u
  have hdirectory : scheme? (directory u) = some s :=
    (resolve_takes_over hd relative).2.symm.trans hs
  have hprefix : directory u <+: withoutQuery u := directory_prefix_of_scheme hdirectory
  have hurl : (scheme? u).isSome = true := by
    have hmore : withoutQuery u <+: u := by
      unfold withoutQuery
      split
      · exact List.takeWhile_prefix _
      · exact List.prefix_rfl
    obtain ⟨v, hv⟩ := hprefix.trans hmore
    rw [← hv, scheme?_append hdirectory v]
    rfl
  rcases mem_resolve_name hf relative hd hc with hc | hc | hc
  · have hmem := hprefix.subset hc
    rw [withoutQuery, if_pos hurl] at hmem
    simpa using List.all_eq_true.1 List.all_takeWhile c hmem
  · exact hf.no_end c hc
  · rw [isSeparator, Bool.or_eq_true, beq_iff_eq, beq_iff_eq] at hc
    rcases hc with rfl | rfl <;> decide

/-- The last separator of a location is none of the two in front of its authority, if there is
room for these before it. -/
theorem endsInAuthority_of_length {u s p : List Char} (hscheme : scheme? u = some s)
    (hlength : s.length + 3 ≤ p.length) : endsInAuthority u p = false := by
  rw [endsInAuthority, hscheme]
  simp only [Bool.and_eq_false_iff, decide_eq_false_iff_not]
  exact .inr (by omega)

/-- A name behind a directory lies outside the authority of a URL. -/
theorem endsInAuthority_behind_directory (hf : IsName f) {p : List Char} {sep : Char}
    (hsep : isSeparator sep = true) :
    endsInAuthority (trimSeparators p ++ sep :: f) (trimSeparators p) = false := by
  generalize ht : trimSeparators p = t
  unfold endsInAuthority
  cases hs : scheme? (t ++ sep :: f) with
  | none => rfl
  | some s =>
    rcases scheme?_behind_separator hsep hs with ⟨r, rfl⟩
    have hdrop : ((s ++ ':' :: r) ++ sep :: f).drop (s.length + 1) = r ++ sep :: f := by
      have hassoc : (s ++ ':' :: r) ++ sep :: f = (s ++ [':']) ++ (r ++ sep :: f) := by simp
      rw [hassoc, List.drop_left' (by simp)]
    dsimp only
    rw [hdrop, Bool.and_eq_false_iff, decide_eq_false_iff_not]
    by_cases hauthority : startsAuthority (r ++ sep :: f) = true
    · right
      rw [startsAuthority, List.isPrefixOf_iff_prefix] at hauthority
      obtain ⟨tail, htail⟩ := hauthority
      -- Of the two slashes the second is not behind the separator, and the first does not
      -- end the trimmed directory.
      match r with
      | [] =>
        have hslash : f = '/' :: tail := (List.cons.inj htail).2.symm
        have hno := hf.no_separator '/' (by simp [hslash])
        exact absurd hno (by decide)
      | [c] =>
        have hc : c = '/' := (List.cons.inj htail).1.symm
        have hlast : trimSeparators p = (s ++ [':']) ++ [c] := by rw [ht]; simp
        have hno := not_isSeparator_of_trimSeparators hlast
        rw [hc] at hno
        exact absurd hno (by decide)
      | c :: c' :: r =>
        simp only [List.length_append, List.length_cons]
        omega
    · left
      simpa using hauthority

end

/-! ## The directory of a sibling -/

/-- A root of a URL with slashes behind its empty authority ends with a separator behind
that authority. -/
theorem exists_of_isRootUrl {d : List Char} (hroot : isRootUrl d (trimSeparators d) = true)
    (hd : ¬IsBareAuthority d) :
    ∃ s before sep, scheme? d = some s ∧ d = before ++ [sep] ∧ isSeparator sep = true ∧
      s.length + 3 ≤ before.length := by
  obtain ⟨s, seps, hs, hseps, rfl⟩ := isRootUrl_iff.1 hroot
  have hscheme : scheme? (s ++ ':' :: '/' :: '/' :: seps) = some s :=
    scheme?_eq_some_iff.2 ⟨hs, '/' :: '/' :: seps, rfl⟩
  rcases List.eq_nil_or_concat seps with rfl | ⟨middle, sep, rfl⟩
  · exact absurd ⟨s, hs, rfl⟩ hd
  · refine ⟨s, s ++ ':' :: '/' :: '/' :: middle, sep, hscheme, ?_, ?_, ?_⟩
    · simp
    · exact hseps sep (by simp)
    · simp only [List.length_append, List.length_cons]
      omega

/-- A name put behind the directory of a location lies in that directory. -/
theorem trimSeparators_directory_resolve {u f : List Char} (hf : IsName f)
    (relative : isAbsolute f = false) (hd : ¬IsBareAuthority (directory u)) :
    trimSeparators (directory (resolve (directory u) f)) = trimSeparators (directory u) := by
  have hquery := withoutQuery_sibling hf relative u
  rw [resolve_name hf relative (directory_ne_nil u)] at hquery ⊢
  generalize directory u = d at hd hquery ⊢
  cases hroot : isRootUrl d (trimSeparators d) with
  | false =>
    have hsep := isSeparator_joiner d
    rw [hroot, if_neg Bool.false_ne_true] at hquery
    rw [if_neg Bool.false_ne_true, trimSeparators_directory hsep hf.no_separator hquery
      (endsInAuthority_behind_directory hf hsep), trimSeparators_trimSeparators]
  | true =>
    rcases exists_of_isRootUrl hroot hd with ⟨s, before, sep, hs, rfl, hsep, hlength⟩
    have hjoin : before ++ [sep] ++ f = before ++ sep :: f := by simp
    have houtside : endsInAuthority (before ++ sep :: f) before = false := by
      have hscheme := scheme?_append hs f
      rw [hjoin] at hscheme
      exact endsInAuthority_of_length hscheme hlength
    rw [hroot, if_pos rfl, hjoin] at hquery
    rw [if_pos rfl, hjoin, trimSeparators_directory hsep hf.no_separator hquery houtside]
    exact (trimSeparators_append before (by simpa using hsep)).symm

/-- A query or a fragment behind a URL changes nothing about its directory. -/
theorem directory_append_query {u q : List Char} (hscheme : (scheme? u).isSome = true)
    (hu : ∀ c ∈ u, endsUrlPath c = false) (hq : ∃ c r, q = c :: r ∧ endsUrlPath c = true) :
    directory (u ++ q) = directory u := by
  obtain ⟨s, hs⟩ := Option.isSome_iff_exists.1 hscheme
  rcases hq with ⟨c, r, rfl, hc⟩
  have hkeep : ∀ c ∈ u, (!endsUrlPath c) = true := by
    intro c hc
    rw [hu c hc]
    rfl
  have hcut : withoutQuery (u ++ c :: r) = u := by
    have hurl : (scheme? (u ++ c :: r)).isSome = true := by
      rw [scheme?_append hs]
      rfl
    rw [withoutQuery, if_pos hurl, List.takeWhile_append_of_pos hkeep,
      List.takeWhile_cons_of_neg (by simp [hc]), List.append_nil]
  have hself : withoutQuery u = u := withoutQuery_eq_self fun _ => hu
  unfold directory
  rw [hcut, hself]

end Chars

/-! ## Every location -/

theorem isName_assetMapName : IsName Settings.assetMapName.toList where
  ne_nil := by decide
  no_separator := by simp [Settings.assetMapName, isSeparator]
  no_end := by simp [Settings.assetMapName, endsUrlPath]

/-- Every location has a directory.  A name that is put behind it, such as that of an asset
map, leads to a location with the same directory, up to separators at the end, unless the
directory is nothing but a scheme and two slashes.  A query or a fragment behind a URL that
has none does not change its directory, whatever there is in it. -/
theorem directory_of_sibling (u : String) :
    directory u ≠ "" ∧
    (∀ f : String, IsName f.toList → isAbsolute f = false →
      ¬IsBareAuthority (directory u).toList →
      Chars.trimSeparators (directory (resolve (directory u) f)).toList =
        Chars.trimSeparators (directory u).toList) ∧
    (IsName Settings.assetMapName.toList ∧ isAbsolute Settings.assetMapName = false) ∧
    ∀ q : String, scheme? u ≠ none → (∀ c ∈ u.toList, endsUrlPath c = false) →
      (∃ c r, q.toList = c :: r ∧ endsUrlPath c = true) → directory (u ++ q) = directory u := by
  refine ⟨?_, ?_, ?_, ?_⟩
  · intro h
    have hnil := congrArg String.toList h
    rw [directory, String.toList_ofList] at hnil
    exact Chars.directory_ne_nil u.toList hnil
  · intro f hf relative hd
    simp only [directory, resolve, String.toList_ofList] at hd ⊢
    exact Chars.trimSeparators_directory_resolve hf relative hd
  · exact ⟨isName_assetMapName, by decide⟩
  · intro q hscheme hu hq
    have hurl : (Chars.scheme? u.toList).isSome = true := by
      rw [Option.isSome_iff_ne_none]
      intro hnone
      apply hscheme
      rw [scheme?, hnone]
      rfl
    rw [directory, String.toList_append, Chars.directory_append_query hurl hu hq]
    rfl

end MasterPackage.Location
