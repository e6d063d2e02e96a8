import MasterPackage.Proofs.Location.Absoluteness
import MasterPackage.Proofs.Location.Sibling

/-!
# The origin of a URL

A URL names a transport by its scheme and a host by its authority.  A path that is not absolute
leads from the directory of a URL to a place of the same transport and the same host, if the path
of the URL has a directory at all; otherwise the directory is the current one, which has no
scheme.  Two kinds of joins are left out, in which text of the path becomes a host: from a URL that
ends with the two slashes in front of its authority to a path that goes on with a name behind the
segments for its directory, and from the root of a URL without an authority to a path that goes on
with another slash there.

What carries the law is that an authority is not changed by anything behind its end
(`Chars.leadingAuthority?_append`), and that a location ends behind its directory or goes on there
with a separator (`Chars.exists_behind_directory`).
-/

namespace MasterPackage.Location

/-- The characters that end the authority of a URL. -/
def endsAuthority (c : Char) : Bool := isSeparator c || endsUrlPath c

/-- The authority in front of a text: what stands between two slashes and the path, the query or
the fragment. -/
def Chars.leadingAuthority? : List Char → Option (List Char)
  | '/' :: '/' :: p => some (p.takeWhile fun c => !endsAuthority c)
  | _ => none

/-- The authority of a URL, which stands behind its scheme and the colon. -/
def Chars.authority? (u : List Char) : Option (List Char) :=
  (Chars.scheme? u).bind fun s => leadingAuthority? (u.drop (s.length + 1))

/-- The authority of a URL, if it has one. -/
def authority? (u : String) : Option String := (Chars.authority? u.toList).map String.ofList

/-- A scheme, its colon and nothing but separators, of which the first two are not both slashes:
the root of a URL without an authority. -/
def IsSchemeRoot (d : List Char) : Prop :=
  ∃ s seps, isScheme s = true ∧ (∀ c ∈ seps, isSeparator c = true) ∧
    Chars.startsAuthority seps = false ∧ d = s ++ ':' :: seps

/-- A path goes on with a slash behind the segments that name its directory. -/
def GoesOnWithSlash (p : List Char) : Prop := ∃ front r, IsHereRun front ∧ p = front ++ '/' :: r

/-- A path goes on behind all the segments that name its directory, and not with a character that
would end an authority. -/
def GoesOnWithName (p : List Char) : Prop :=
  ∃ front c r, IsHereRun front ∧ ¬BeginsHere (c :: r) ∧ endsAuthority c = false ∧
    p = front ++ c :: r

namespace Chars

/-! ## Authorities -/

theorem takeWhile_append_of_end {f : Char → Bool} {c : Char} (hc : f c = false)
    (t z : List Char) : (t ++ c :: z).takeWhile f = t.takeWhile f := by
  induction t with
  | nil => simp [hc]
  | cons d t ih => rw [List.cons_append, List.takeWhile_cons, List.takeWhile_cons, ih]

theorem leadingAuthority?_eq_none {p : List Char} (h : startsAuthority p = false) :
    leadingAuthority? p = none := by
  unfold leadingAuthority?
  split
  · cases h
  · rfl

theorem leadingAuthority?_append {t z : List Char} {c : Char} (hc : endsAuthority c = true)
    (hfront : startsAuthority (t ++ c :: z) = startsAuthority t) :
    leadingAuthority? (t ++ c :: z) = leadingAuthority? t := by
  cases hstart : startsAuthority t with
  | true =>
    obtain ⟨p, rfl⟩ := startsAuthority_iff.1 hstart
    have hend : (!endsAuthority c) = false := by rw [hc]; rfl
    have htake := takeWhile_append_of_end (f := fun c => !endsAuthority c) hend p z
    exact congrArg some htake
  | false =>
    rw [leadingAuthority?_eq_none hstart, leadingAuthority?_eq_none (hfront.trans hstart)]

/-- Two slashes at an end, or in front of the end of an authority, stand for an empty one. -/
theorem leadingAuthority?_slashes {z : List Char}
    (hz : z = [] ∨ ∃ c y, z = c :: y ∧ endsAuthority c = true) :
    leadingAuthority? ('/' :: '/' :: z) = some [] := by
  rcases hz with rfl | ⟨c, y, rfl, hc⟩
  · rfl
  · simp [leadingAuthority?, hc]

theorem authority?_url {s : List Char} (hs : isScheme s = true) (rest : List Char) :
    authority? (s ++ ':' :: rest) = leadingAuthority? rest := by
  have hscheme : scheme? (s ++ ':' :: rest) = some s := scheme?_eq_some_iff.2 ⟨hs, rest, rfl⟩
  rw [authority?, hscheme, Option.bind_some, drop_colon]

/-- Two slashes in front of a text stand in front of any other character of it. -/
theorem startsAuthority_append {c : Char} (hc : c ≠ '/') (t z : List Char) :
    startsAuthority (t ++ c :: z) = startsAuthority t := by
  match t with
  | [] => simp [startsAuthority, List.isPrefixOf, Ne.symm hc]
  | [d] => simp [startsAuthority, List.isPrefixOf, Ne.symm hc]
  | d :: e :: t => simp [startsAuthority, List.isPrefixOf]

/-- What is put behind a text that does not end with a separator makes no authority of it. -/
theorem startsAuthority_behind {t : List Char} (ht : t ≠ []) (htrimmed : trimSeparators t = t)
    (z : List Char) : startsAuthority (t ++ z) = startsAuthority t := by
  rcases List.eq_nil_or_concat t with hnil | ⟨t, c, rfl⟩
  · exact absurd hnil ht
  · rw [List.concat_eq_append] at htrimmed ⊢
    have hc : c ≠ '/' := by
      intro hslash
      rw [hslash] at htrimmed
      exact absurd (not_isSeparator_of_trimSeparators htrimmed) (by decide)
    rw [List.append_assoc, List.singleton_append, startsAuthority_append hc,
      startsAuthority_append hc]

theorem withoutQuery_url {s rest : List Char} (hs : isScheme s = true) :
    withoutQuery (s ++ ':' :: rest) = s ++ ':' :: rest.takeWhile fun c => !endsUrlPath c := by
  have hscheme : scheme? (s ++ ':' :: rest) = some s := scheme?_eq_some_iff.2 ⟨hs, rest, rfl⟩
  have hkeep : ∀ c ∈ s ++ [':'], (!endsUrlPath c) = true := by
    intro c hc
    rcases List.mem_append.1 hc with hc | hc
    · rw [plain_of_mem_scheme hs hc]
      rfl
    · rw [List.mem_singleton.1 hc]
      rfl
  rw [withoutQuery, hscheme, Option.isSome_some, if_pos rfl, List.append_cons,
    List.takeWhile_append_of_pos hkeep, ← List.append_cons]

/-- The query and the fragment of a URL have no part in its authority. -/
theorem leadingAuthority?_takeWhile (p : List Char) :
    leadingAuthority? (p.takeWhile fun c => !endsUrlPath c) = leadingAuthority? p := by
  have hsplit :
      (p.takeWhile fun c => !endsUrlPath c) ++ p.dropWhile (fun c => !endsUrlPath c) = p :=
    List.takeWhile_append_dropWhile
  cases hquery : p.dropWhile fun c => !endsUrlPath c with
  | nil =>
    rw [hquery, List.append_nil] at hsplit
    rw [hsplit]
  | cons c q =>
    have hc : endsUrlPath c = true := by
      have hnot := List.head?_dropWhile_not (fun c => !endsUrlPath c) p
      rw [hquery] at hnot
      simpa using hnot
    have hend : endsAuthority c = true := by rw [endsAuthority, hc, Bool.or_true]
    have hslash : c ≠ '/' := by
      intro heq
      rw [heq] at hc
      cases hc
    rw [hquery] at hsplit
    have happend := leadingAuthority?_append hend
      (startsAuthority_append hslash (p.takeWhile fun c => !endsUrlPath c) q)
    rw [hsplit] at happend
    exact happend.symm

/-! ## Behind a directory -/

section

variable {u : List Char}

/-- The directory of a location with a separator is all of it, or what stands before the last
one. -/
theorem directory_cases (hsome : ∃ c ∈ withoutQuery u, isSeparator c = true) :
    ∃ before sep after, withoutQuery u = before ++ sep :: after ∧ isSeparator sep = true ∧
      (directory u = withoutQuery u ∨
        endsInAuthority (withoutQuery u) before = false ∧
          (directory u = before ++ [sep] ∨ directory u = before)) := by
  rcases separators_cases (withoutQuery u) with hnone | ⟨before, sep, after, hpath, hsep, hafter⟩
  · obtain ⟨c, hc, hsep⟩ := hsome
    rw [hnone c hc] at hsep
    cases hsep
  · refine ⟨before, sep, after, hpath, hsep, ?_⟩
    rw [directory_of_last hpath hsep hafter]
    split
    · exact .inl rfl
    · next houtside =>
      refine .inr ⟨Bool.eq_false_iff.2 houtside, ?_⟩
      split
      · exact .inl rfl
      · exact .inr rfl

/-- Behind the directory of a location, as far as it is no separator, the location ends or goes
on with one. -/
theorem exists_behind_directory (hsome : ∃ c ∈ withoutQuery u, isSeparator c = true) :
    ∃ more, withoutQuery u = trimSeparators (directory u) ++ more ∧
      (more = [] ∨ ∃ c z, more = c :: z ∧ isSeparator c = true) := by
  obtain ⟨before, sep, after, hpath, hsep, hdirectory⟩ := directory_cases hsome
  obtain ⟨seps, hparts, hseps⟩ := exists_separators (directory u)
  -- the separators at the end of the directory come first, if there are any
  have hbehind (rest : List Char) (hrest : withoutQuery u = directory u ++ rest)
      (hnext : seps = [] → rest = [] ∨ ∃ c z, rest = c :: z ∧ isSeparator c = true) :
      ∃ more, withoutQuery u = trimSeparators (directory u) ++ more ∧
        (more = [] ∨ ∃ c z, more = c :: z ∧ isSeparator c = true) := by
    refine ⟨seps ++ rest, ?_, ?_⟩
    · rw [← List.append_assoc, ← hparts, hrest]
    · cases seps with
      | nil => exact hnext rfl
      | cons c seps => exact .inr ⟨c, seps ++ rest, rfl, hseps c (List.mem_cons_self ..)⟩
  rcases hdirectory with hdirectory | ⟨-, hdirectory | hdirectory⟩
  · exact hbehind [] (by rw [hdirectory, List.append_nil]) fun _ => .inl rfl
  · refine hbehind after (by rw [hpath, hdirectory]; simp) fun hnil => ?_
    rw [hnil, List.append_nil, hdirectory] at hparts
    rw [not_isSeparator_of_trimSeparators hparts.symm] at hsep
    cases hsep
  · exact hbehind (sep :: after) (by rw [hpath, hdirectory]) fun _ => .inr ⟨sep, after, rfl, hsep⟩

theorem scheme?_directory (hsome : ∃ c ∈ withoutQuery u, isSeparator c = true) {s : List Char}
    (hscheme : scheme? u = some s) : scheme? (directory u) = some s := by
  obtain ⟨hs, rest, rfl⟩ := scheme?_eq_some_iff.1 hscheme
  obtain ⟨more, hpath, hmore⟩ := exists_behind_directory hsome
  have hbegin : scheme? (withoutQuery (s ++ ':' :: rest)) = some s := by
    rw [withoutQuery_url hs]
    exact scheme?_eq_some_iff.2 ⟨hs, _, rfl⟩
  rw [← scheme?_trimSeparators, ← hbegin, hpath]
  rcases hmore with rfl | ⟨c, z, rfl, hc⟩
  · rw [List.append_nil]
  · rw [scheme?_append_separator hc]

/-- Outside of the slashes in front of an authority is behind both of them. -/
theorem length_le_of_outside {s w before : List Char} (hs : isScheme s = true)
    (hpath : withoutQuery u = s ++ ':' :: '/' :: '/' :: w)
    (houtside : endsInAuthority (withoutQuery u) before = false) :
    s.length + 3 ≤ before.length := by
  have hscheme : scheme? (withoutQuery u) = some s :=
    scheme?_eq_some_iff.2 ⟨hs, '/' :: '/' :: w, hpath⟩
  rw [endsInAuthority, hscheme] at houtside
  simp only [hpath, drop_colon, startsAuthority_iff.2 ⟨w, rfl⟩, Bool.true_and,
    decide_eq_false_iff_not, Nat.not_lt] at houtside
  exact houtside

/-- The slashes in front of the authority of a URL belong to its directory. -/
theorem exists_directory_of_authority {s w : List Char} (hs : isScheme s = true)
    (hsome : ∃ c ∈ withoutQuery u, isSeparator c = true)
    (hpath : withoutQuery u = s ++ ':' :: '/' :: '/' :: w) :
    ∃ x, directory u = s ++ ':' :: '/' :: '/' :: x := by
  obtain ⟨before, sep, after, hcut, -, hdirectory⟩ := directory_cases hsome
  rcases hdirectory with hdirectory | ⟨houtside, hdirectory⟩
  · exact ⟨w, hdirectory.trans hpath⟩
  · have hlength := length_le_of_outside hs hpath houtside
    have hbefore : ∃ x, before = s ++ ':' :: '/' :: '/' :: x := by
      have hslashes : s ++ [':', '/', '/'] <+: withoutQuery u := ⟨w, by rw [hpath]; simp⟩
      have hfront : before <+: withoutQuery u := ⟨sep :: after, hcut.symm⟩
      obtain ⟨x, hx⟩ := List.prefix_of_prefix_length_le hslashes hfront (by simpa using hlength)
      exact ⟨x, by rw [← hx]; simp⟩
    obtain ⟨x, hx⟩ := hbefore
    rcases hdirectory with hdirectory | hdirectory
    · exact ⟨x ++ [sep], by rw [hdirectory, hx]; simp⟩
    · exact ⟨x, hdirectory.trans hx⟩

/-! ## Joins -/

variable {p s : List Char}

theorem goesOnWithSlash_iff : GoesOnWithSlash p ↔ (dropHere p).head? = some '/' := by
  obtain ⟨front, hfront, hp⟩ := exists_hereRun p
  constructor
  · intro hgoes
    obtain ⟨front, r, hrun, rfl⟩ := hgoes
    rw [dropHere_append hrun]
    rfl
  · intro hslash
    obtain ⟨r, hr⟩ := List.head?_eq_some_iff.1 hslash
    exact ⟨front, r, hfront, by rw [hp, hr]⟩

/-- A path that does not go on with a name goes on with the end of an authority or with nothing. -/
theorem dropHere_of_not_goesOnWithName (hp : ¬GoesOnWithName p) :
    dropHere p = [] ∨ ∃ c r, dropHere p = c :: r ∧ endsAuthority c = true := by
  obtain ⟨front, hfront, hsplit⟩ := exists_hereRun p
  have hlast := not_beginsHere_dropHere p
  cases hrest : dropHere p with
  | nil => exact .inl rfl
  | cons c r =>
    rw [hrest] at hsplit hlast
    refine .inr ⟨c, r, rfl, ?_⟩
    rw [← Bool.not_eq_false]
    intro hc
    exact hp ⟨front, c, r, hfront, hlast, hc, hsplit⟩

theorem joiner_of_scheme {d : List Char} (hscheme : scheme? d = some s) : joiner d = '/' := by
  rw [joiner, hscheme]
  rfl

/-- A URL is trimmed behind the colon of its scheme. -/
theorem trimSeparators_url (s rest : List Char) :
    trimSeparators (s ++ ':' :: rest) = s ++ ':' :: trimSeparators rest := by
  rw [List.append_cons, trimSeparators_behind s (by decide), ← List.append_cons]

/-- A URL of which trimming leaves the scheme alone is one root or the other. -/
theorem isSchemeRoot_of_trimSeparators {d : List Char} (hs : isScheme s = true)
    (htrim : trimSeparators d = s ++ [':']) (place : ¬IsRootUrl d) : IsSchemeRoot d := by
  obtain ⟨seps, hparts, hseps⟩ := exists_separators d
  rw [htrim, ← List.append_cons] at hparts
  refine ⟨s, seps, hs, hseps, ?_, hparts⟩
  rw [Bool.eq_false_iff]
  intro hslashes
  obtain ⟨more, rfl⟩ := startsAuthority_iff.1 hslashes
  exact place ⟨s, more, hs, fun c hc => hseps c (by simp [hc]), hparts⟩

theorem startsAuthority_of_isSchemeRoot {rest : List Char} (hs : isScheme s = true)
    (hroot : IsSchemeRoot (s ++ ':' :: rest)) : startsAuthority rest = false := by
  obtain ⟨s', seps, hs', -, hbare, heq⟩ := hroot
  have hscheme : scheme? (s ++ ':' :: rest) = some s := scheme?_eq_some_iff.2 ⟨hs, rest, rfl⟩
  have hsame : scheme? (s ++ ':' :: rest) = some s' := scheme?_eq_some_iff.2 ⟨hs', seps, heq⟩
  rw [hscheme, Option.some.injEq] at hsame
  subst hsame
  rw [(List.cons.inj (List.append_cancel_left heq)).2]
  exact hbare

/-- What is put behind a text without separators at its end does not change its authority, unless
there is nothing but two slashes. -/
theorem leadingAuthority?_behind {t z : List Char} (htrimmed : trimSeparators t = t)
    (hz : z = [] ∨ ∃ c y, z = c :: y ∧ isSeparator c = true)
    (hnil : t = [] → startsAuthority z = false) :
    leadingAuthority? (t ++ z) = leadingAuthority? t := by
  rcases hz with rfl | ⟨c, y, rfl, hc⟩
  · rw [List.append_nil]
  · have hend : endsAuthority c = true := by rw [endsAuthority, hc, Bool.true_or]
    apply leadingAuthority?_append hend
    by_cases ht : t = []
    · subst ht
      exact hnil rfl
    · exact startsAuthority_behind ht htrimmed (c :: y)

/-- A URL has the authority that its directory begins with, whatever is put behind a slash. -/
theorem leadingAuthority?_join {rest t r : List Char} (hs : isScheme s = true)
    (hsome : ∃ c ∈ withoutQuery (s ++ ':' :: rest), isSeparator c = true)
    (place : ¬IsRootUrl (directory (s ++ ':' :: rest)))
    (htrim : trimSeparators (directory (s ++ ':' :: rest)) = s ++ ':' :: t)
    (hroot : IsSchemeRoot (directory (s ++ ':' :: rest)) → startsAuthority ('/' :: r) = false) :
    leadingAuthority? (t ++ '/' :: r) = leadingAuthority? rest := by
  obtain ⟨more, hpath, hmore⟩ := exists_behind_directory hsome
  have htrimmed : trimSeparators t = t := by
    have hself := trimSeparators_trimSeparators (directory (s ++ ':' :: rest))
    rw [htrim, trimSeparators_url] at hself
    exact (List.cons.inj (List.append_cancel_left hself)).2
  have hjoin : withoutQuery (s ++ ':' :: rest) = s ++ ':' :: (t ++ more) := by
    rw [hpath, htrim, List.append_assoc, List.cons_append]
  have hplain : leadingAuthority? rest = leadingAuthority? (t ++ more) := by
    rw [withoutQuery_url hs] at hjoin
    rw [← leadingAuthority?_takeWhile rest, (List.cons.inj (List.append_cancel_left hjoin)).2]
  have hscheme (hnil : t = []) : IsSchemeRoot (directory (s ++ ':' :: rest)) :=
    isSchemeRoot_of_trimSeparators hs (by rw [htrim, hnil]) place
  rw [hplain, leadingAuthority?_behind htrimmed (.inr ⟨'/', r, rfl, rfl⟩) fun hnil =>
    hroot (hscheme hnil)]
  refine (leadingAuthority?_behind htrimmed hmore fun hnil => ?_).symm
  -- Two slashes behind the scheme would belong to the directory.
  rw [Bool.eq_false_iff]
  intro hslashes
  obtain ⟨w, rfl⟩ := startsAuthority_iff.1 hslashes
  rw [hnil, List.nil_append] at hjoin
  obtain ⟨x, hx⟩ := exists_directory_of_authority hs hsome hjoin
  have hbare := startsAuthority_of_isSchemeRoot hs (hx ▸ hscheme hnil)
  cases hbare

/-- A URL has an empty authority if its directory has. -/
theorem leadingAuthority?_of_rootUrl {rest seps : List Char} (hs : isScheme s = true)
    (hsome : ∃ c ∈ withoutQuery (s ++ ':' :: rest), isSeparator c = true)
    (hseps : ∀ c ∈ seps, isSeparator c = true)
    (hd : directory (s ++ ':' :: rest) = s ++ ':' :: '/' :: '/' :: seps) :
    leadingAuthority? rest = some [] := by
  obtain ⟨before, sep, after, hcut, hsep, hdirectory⟩ := directory_cases hsome
  have hends {c : Char} (hc : isSeparator c = true) : endsAuthority c = true := by
    rw [endsAuthority, hc, Bool.true_or]
  -- The text behind the slashes is that of the directory, and then what it was cut off from.
  have hbehind (z : List Char) (hz : z = [] ∨ ∃ c y, z = c :: y ∧ isSeparator c = true)
      (hpath : withoutQuery (s ++ ':' :: rest) = s ++ ':' :: '/' :: '/' :: (seps ++ z)) :
      leadingAuthority? rest = some [] := by
    rw [withoutQuery_url hs] at hpath
    rw [← leadingAuthority?_takeWhile rest, (List.cons.inj (List.append_cancel_left hpath)).2]
    apply leadingAuthority?_slashes
    cases seps with
    | nil => exact hz.imp id fun ⟨c, y, hcons, hc⟩ => ⟨c, y, hcons, hends hc⟩
    | cons c seps => exact .inr ⟨c, seps ++ z, rfl, hends (hseps c (List.mem_cons_self ..))⟩
  rcases hdirectory with hwhole | ⟨houtside, hwith | hwithout⟩
  · exact hbehind [] (.inl rfl) (by rw [← hwhole, hd, List.append_nil])
  · have hpath : withoutQuery (s ++ ':' :: rest) = s ++ ':' :: '/' :: '/' :: (seps ++ after) := by
      have hsplit : before ++ sep :: after = before ++ [sep] ++ after := by simp
      rw [hcut, hsplit, ← hwith, hd, List.append_assoc]
      rfl
    cases seps with
    | nil =>
      have hlength := length_le_of_outside hs hpath houtside
      have hsame := congrArg List.length (hwith.symm.trans hd)
      simp only [List.length_append, List.length_cons, List.length_nil] at hsame
      omega
    | cons c seps =>
      rw [withoutQuery_url hs] at hpath
      rw [← leadingAuthority?_takeWhile rest, (List.cons.inj (List.append_cancel_left hpath)).2]
      exact leadingAuthority?_slashes (.inr ⟨c, _, rfl, hends (hseps c (List.mem_cons_self ..))⟩)
  · refine hbehind (sep :: after) (.inr ⟨sep, after, rfl, hsep⟩) ?_
    rw [hcut, ← hwithout, hd, List.append_assoc]
    rfl

/-- Behind the root of a URL with an empty authority no other authority comes up, unless there are
just its two slashes. -/
theorem authority?_root {rest r : List Char} (hs : isScheme s = true)
    (hsome : ∃ c ∈ withoutQuery (s ++ ':' :: rest), isSeparator c = true)
    (hplace : scheme? (directory (s ++ ':' :: rest)) = some s)
    (hslashes : IsRootUrl (directory (s ++ ':' :: rest)))
    (hbare : IsBareAuthority (directory (s ++ ':' :: rest)) →
      r = [] ∨ ∃ c y, r = c :: y ∧ endsAuthority c = true) :
    authority? (directory (s ++ ':' :: rest) ++ r) = leadingAuthority? rest := by
  obtain ⟨s', seps, hs', hseps, hd⟩ := hslashes
  have hsame : some s' = some s :=
    (scheme?_eq_some_iff.2 ⟨hs', '/' :: '/' :: seps, hd⟩).symm.trans hplace
  cases hsame
  rw [leadingAuthority?_of_rootUrl hs hsome hseps hd, hd, List.append_assoc, List.cons_append,
    authority?_url hs]
  apply leadingAuthority?_slashes
  cases seps with
  | nil => exact hbare ⟨s, hs, hd⟩
  | cons c seps =>
    have hc : isSeparator c = true := hseps c (List.mem_cons_self ..)
    exact .inr ⟨c, seps ++ r, rfl, by rw [endsAuthority, hc, Bool.true_or]⟩

/-- Where a path leads from the directory of a URL, the authority is that of the URL. -/
theorem authority?_resolve {u : List Char} (hscheme : scheme? u = some s)
    (relative : isAbsolute p = false) (hsome : ∃ c ∈ withoutQuery u, isSeparator c = true)
    (hbare : ¬(IsBareAuthority (directory u) ∧ GoesOnWithName p))
    (hroot : ¬(IsSchemeRoot (directory u) ∧ GoesOnWithSlash p)) :
    authority? (resolve (directory u) p) = authority? u := by
  have hplace : scheme? (directory u) = some s := scheme?_directory hsome hscheme
  obtain ⟨hs, rest, rfl⟩ := scheme?_eq_some_iff.1 hscheme
  rw [resolve_of_relative (directory_ne_nil _) relative, authority?_url hs]
  split
  · next hslashes =>
    apply authority?_root hs hsome hplace (isRootUrl_iff.1 hslashes)
    intro hnothing
    exact dropHere_of_not_goesOnWithName fun hname => hbare ⟨hnothing, hname⟩
  · next hslashes =>
    have htrim := (scheme?_trimSeparators _).trans hplace
    obtain ⟨-, t, ht⟩ := scheme?_eq_some_iff.1 htrim
    rw [joiner_of_scheme hplace, ht, List.append_assoc, List.cons_append, authority?_url hs]
    apply leadingAuthority?_join hs hsome (fun h => hslashes (isRootUrl_iff.2 h)) ht
    intro hscheme
    rw [Bool.eq_false_iff]
    intro hauthority
    obtain ⟨r, hr⟩ := startsAuthority_iff.1 hauthority
    refine hroot ⟨hscheme, goesOnWithSlash_iff.2 ?_⟩
    rw [(List.cons.inj hr).2]
    rfl

end

end Chars

instance (p : List Char) : Decidable (GoesOnWithSlash p) :=
  decidable_of_iff _ Chars.goesOnWithSlash_iff.symm

/-! ## Every URL and path -/

/-- A path that is not absolute, such as the name of an asset map, leads from the directory of a
URL to a location with the same scheme.  It has the same authority too, unless the directory is a
scheme and two slashes with nothing behind them, from where the path goes on with a name, or the
root of a URL without an authority, from where the path goes on with another slash.  A URL that has
no separator outside of its query and its fragment has no directory of its own: it lies in the
current one, and the path leads to a location without a scheme. -/
theorem resolve_keeps_origin {u p s : String} (hscheme : scheme? u = some s)
    (relative : isAbsolute p = false) :
    ((∃ c ∈ Chars.withoutQuery u.toList, isSeparator c = true) →
      scheme? (resolve (directory u) p) = some s ∧
        (¬(IsBareAuthority (directory u).toList ∧ GoesOnWithName p.toList) →
          ¬(IsSchemeRoot (directory u).toList ∧ GoesOnWithSlash p.toList) →
          authority? (resolve (directory u) p) = authority? u)) ∧
    ((∀ c ∈ Chars.withoutQuery u.toList, isSeparator c = false) →
      directory u = "." ∧ scheme? (resolve (directory u) p) = none) := by
  obtain ⟨t, ht, rfl⟩ := Option.map_eq_some_iff.1 hscheme
  have hleads : scheme? (resolve (directory u) p) =
      (Chars.scheme? (Chars.directory u.toList)).map String.ofList := by
    have hrelative : Chars.isAbsolute p.toList = false := relative
    rw [scheme?, toList_resolve, directory, String.toList_ofList, Chars.scheme?_resolve,
      hrelative, if_neg Bool.false_ne_true]
  rw [hleads]
  constructor
  · intro hsome
    refine ⟨by rw [Chars.scheme?_directory hsome ht]; rfl, ?_⟩
    intro hbare hroot
    rw [directory, String.toList_ofList] at hbare hroot
    rw [authority?, toList_resolve, directory, String.toList_ofList,
      Chars.authority?_resolve ht relative hsome hbare hroot]
    rfl
  · intro hnone
    have hhere : Chars.directory u.toList = ['.'] := Chars.directory_of_no_separator hnone
    refine ⟨?_, by rw [hhere]; rfl⟩
    rw [directory, hhere]

/-- A path with segments for its directory, from a URL with a user, a port and a query. -/
theorem resolve_keeps_user_and_port :
    scheme? "https://me@host:80/a/b.xml?x=/y#z" = some "https" ∧
      isAbsolute ".\\./sub/v.mxf" = false ∧
      scheme? (resolve (directory "https://me@host:80/a/b.xml?x=/y#z") ".\\./sub/v.mxf") =
        some "https" ∧
      authority? (resolve (directory "https://me@host:80/a/b.xml?x=/y#z") ".\\./sub/v.mxf") =
        some "me@host:80" := by
  have hscheme : scheme? "https://me@host:80/a/b.xml?x=/y#z" = some "https" := by decide
  have relative : isAbsolute ".\\./sub/v.mxf" = false := by decide
  have hdirectory : directory "https://me@host:80/a/b.xml?x=/y#z" = "https://me@host:80/a" := by
    decide
  obtain ⟨hkept, hauthority⟩ :=
    (resolve_keeps_origin hscheme relative).1 ⟨'/', by decide, by decide⟩
  have hbare : ¬IsBareAuthority (directory "https://me@host:80/a/b.xml?x=/y#z").toList := by
    intro h
    obtain ⟨t, -, ht⟩ := h
    have hlast := congrArg List.getLast? ht
    rw [hdirectory] at hlast
    simp at hlast
  refine ⟨hscheme, relative, hkept, (hauthority (hbare ·.1) fun h => ?_).trans (by decide)⟩
  exact absurd h.2 (by decide)

/-- A URL with a name right behind its scheme lies in the current directory, and what stands
beside it has no scheme.  In the two other cases a part of the path becomes a host: behind two
slashes with nothing after them, and where a second slash follows that of a root. -/
theorem resolve_loses_origin :
    (scheme? "file:CPL.xml" = some "file" ∧ isAbsolute Settings.assetMapName = false ∧
      resolve (directory "file:CPL.xml") Settings.assetMapName = "./ASSETMAP.xml" ∧
      scheme? (resolve (directory "file:CPL.xml") Settings.assetMapName) = none) ∧
    (isAbsolute "host/v.mxf" = false ∧ authority? "http://" = some "" ∧
      authority? (resolve (directory "http://") "host/v.mxf") = some "host") ∧
    (isAbsolute ".//host/v.mxf" = false ∧ authority? "file:/CPL.xml" = none ∧
      authority? (resolve (directory "file:/CPL.xml") ".//host/v.mxf") = some "host") := by decide

end MasterPackage.Location
