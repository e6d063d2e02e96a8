import MasterPackage.Location.Local
import MasterPackage.Proofs.Location.Sibling
import MasterPackage.Proofs.Text.Case

/-!
# File URLs

The URL of a file on this machine is read in two ways: the file is opened at the path in the
URL, and the asset map that belongs to it is looked for in the directory of the URL.  The two
agree as long as no directory on the path has a question mark or a number sign in its name.
Those end the path of a URL, so the directory of the URL is that of the path in front of the
first of them; but the file is opened at the whole path.
-/

namespace MasterPackage.Location

/-- A path with every run of slashes shortened to one slash. -/
def squeeze : List Char → List Char
  | [] => []
  | c :: p => if c = '/' ∧ p.head? = some '/' then squeeze p else c :: squeeze p

/-- A path up to its last slash. -/
def upToLastSlash (p : List Char) : List Char := (p.reverse.dropWhile (· != '/')).reverse

/-- A name in place of everything behind the last slash of a path, or in the current directory
if there is no slash. -/
def beside (p name : List Char) : List Char :=
  if '/' ∈ p then upToLastSlash p ++ name else '.' :: '/' :: name

/-- The part of a path in front of what would be the query or the fragment of a URL. -/
def beforeQuery (p : List Char) : List Char := p.takeWhile fun c => !endsUrlPath c

/-- No directory on a path has a character in its name that ends the path of a URL. -/
def HasPlainDirectory (p : List Char) : Prop := ∀ c ∈ upToLastSlash p, endsUrlPath c = false

instance (p : List Char) : Decidable (HasPlainDirectory p) :=
  decidable_of_iff ((upToLastSlash p).all fun c => !endsUrlPath c) (by simp [HasPlainDirectory])

/-- What stands in front of the path in the URL of a file on this machine: the scheme of files,
or the scheme, two slashes and no host or this one; `path` is what stands behind. -/
inductive IsFront : List Char → List Char → Prop
  | bare {s path : List Char} : isScheme s = true → Text.sameFolded s fileScheme = true →
    Chars.startsAuthority path = false → IsFront (s ++ [':']) path
  | hosted {s host path : List Char} : isScheme s = true → Text.sameFolded s fileScheme = true →
    host = [] ∨ Text.sameFolded host localHost = true → path.head? = some '/' →
    IsFront (s ++ ':' :: '/' :: '/' :: host) path

/-! ## Runs of slashes -/

theorem squeeze_append {x y : List Char} (same : squeeze x = squeeze y) (head : x.head? = y.head?)
    (p : List Char) : squeeze (p ++ x) = squeeze (p ++ y) := by
  induction p with
  | nil => exact same
  | cons c p ih =>
    have hhead : (p ++ x).head? = (p ++ y).head? := by
      rw [List.head?_append, List.head?_append, head]
    simp only [List.cons_append, squeeze, hhead, ih]

theorem squeeze_slashes {run : List Char} (slashes : ∀ c ∈ run, c = '/') (p : List Char) :
    squeeze (run ++ '/' :: p) = squeeze ('/' :: p) := by
  induction run with
  | nil => rfl
  | cons c run ih =>
    rcases List.forall_mem_cons.1 slashes with ⟨rfl, hrun⟩
    have hhead : (run ++ '/' :: p).head? = some '/' := by
      cases run with
      | nil => rfl
      | cons d run => rw [(List.forall_mem_cons.1 hrun).1]; rfl
    rw [List.cons_append, squeeze, if_pos ⟨rfl, hhead⟩, ih hrun]

/-- A run of slashes may stand for one. -/
theorem squeeze_append_slashes {run : List Char} (slashes : ∀ c ∈ run, c = '/')
    (p rest : List Char) : squeeze (p ++ run ++ '/' :: rest) = squeeze (p ++ '/' :: rest) := by
  rw [List.append_assoc]
  apply squeeze_append (squeeze_slashes slashes rest)
  cases run with
  | nil => rfl
  | cons c run => rw [slashes c (List.mem_cons_self ..)]; rfl

/-! ## Names beside a file -/

theorem upToLastSlash_append (before : List Char) {after : List Char} (hafter : '/' ∉ after) :
    upToLastSlash (before ++ '/' :: after) = before ++ ['/'] := by
  have hskip : ∀ c ∈ after.reverse, (c != '/') = true := by
    intro c hc
    rw [bne_iff_ne]
    rintro rfl
    exact hafter (List.mem_reverse.1 hc)
  unfold upToLastSlash
  rw [List.reverse_append, List.reverse_cons, List.append_assoc,
    List.dropWhile_append_of_pos hskip, List.singleton_append,
    List.dropWhile_cons_of_neg (by decide), List.reverse_cons, List.reverse_reverse]

theorem beside_append (before : List Char) {after : List Char} (hafter : '/' ∉ after)
    (name : List Char) : beside (before ++ '/' :: after) name = before ++ '/' :: name := by
  rw [beside, if_pos (by simp), upToLastSlash_append before hafter, List.append_assoc,
    List.singleton_append]

theorem beside_of_notMem {p : List Char} (hp : '/' ∉ p) (name : List Char) :
    beside p name = '.' :: '/' :: name := if_neg hp

/-- On a path without backslashes the separators are slashes. -/
theorem eq_slash_of_isSeparator {p : List Char} (posix : '\\' ∉ p) {c : Char} (hc : c ∈ p)
    (hsep : isSeparator c = true) : c = '/' := by
  rw [isSeparator, Bool.or_eq_true, beq_iff_eq, beq_iff_eq] at hsep
  rcases hsep with slash | rfl
  · exact slash
  · exact absurd hc posix

/-- Such a path is cut at its last slash, if it has one. -/
theorem exists_last_slash {p : List Char} (posix : '\\' ∉ p) (hp : '/' ∈ p) :
    ∃ before after, p = before ++ '/' :: after ∧ ∀ c ∈ after, isSeparator c = false := by
  rcases Chars.separators_cases p with hnone | ⟨before, sep, after, hsplit, hsep, hafter⟩
  · exact absurd (hnone '/' hp) (by decide)
  · obtain rfl := eq_slash_of_isSeparator posix (by simp [hsplit]) hsep
    exact ⟨before, after, hsplit, hafter⟩

theorem notMem_of_no_separator {p : List Char} (h : ∀ c ∈ p, isSeparator c = false) : '/' ∉ p := by
  intro hp
  exact absurd (h '/' hp) (by decide)

/-- What would be a query or a fragment behind the last slash makes no difference to a name
beside the file. -/
theorem beside_beforeQuery {p : List Char} (posix : '\\' ∉ p) (plain : HasPlainDirectory p)
    (name : List Char) : beside (beforeQuery p) name = beside p name := by
  have hsub (r : List Char) : ∀ c ∈ beforeQuery r, c ∈ r :=
    fun c hc => (List.takeWhile_prefix _).subset hc
  by_cases hp : '/' ∈ p
  · obtain ⟨before, after, rfl, hafter⟩ := exists_last_slash posix hp
    have hslash := notMem_of_no_separator hafter
    have hkeep : ∀ c ∈ before ++ ['/'], (!endsUrlPath c) = true := by
      intro c hc
      rw [← upToLastSlash_append before hslash] at hc
      rw [plain c hc]
      rfl
    have hcut : beforeQuery (before ++ '/' :: after) = before ++ '/' :: beforeQuery after := by
      rw [beforeQuery, List.append_cons, List.takeWhile_append_of_pos hkeep, List.append_assoc]
      rfl
    rw [hcut, beside_append before hslash,
      beside_append before fun hmem => hslash (hsub after _ hmem)]
  · rw [beside_of_notMem hp, beside_of_notMem fun hmem => hp (hsub p _ hmem)]

namespace Chars

/-! ## Fronts -/

/-- A front has the scheme of files, with the path or with anything else behind it. -/
theorem exists_scheme_of_front {front path : List Char} (hfront : IsFront front path) :
    ∃ s, Text.sameFolded s fileScheme = true ∧ ∀ rest, scheme? (front ++ rest) = some s := by
  cases hfront with
  | @bare s _ hs hfile =>
    refine ⟨s, hfile, fun rest => scheme?_eq_some_iff.2 ⟨hs, rest, ?_⟩⟩
    rw [List.append_assoc]
    rfl
  | @hosted s host _ hs hfile =>
    refine ⟨s, hfile, fun rest => scheme?_eq_some_iff.2 ⟨hs, '/' :: '/' :: host ++ rest, ?_⟩⟩
    rw [List.append_assoc]
    rfl

theorem plain_of_mem_host {host : List Char}
    (hhost : host = [] ∨ Text.sameFolded host localHost = true) {c : Char} (hc : c ∈ host) :
    isSeparator c = false ∧ endsUrlPath c = false := by
  rcases hhost with rfl | hhost
  · cases hc
  · obtain ⟨d, hd, hcase⟩ := Text.exists_of_sameFolded hhost hc
    have hother : (localHost.all fun d =>
        ['/', '\\', '?', '#'].all fun e => d.toLower != e.toLower) = true := by rfl
    have hne (e : Char) (he : e ∈ ['/', '\\', '?', '#']) : c ≠ e := by
      intro same
      have hdiffer := List.all_eq_true.1 (List.all_eq_true.1 hother d hd) e he
      rw [← same, hcase] at hdiffer
      exact absurd hdiffer (by simp)
    simp only [isSeparator, endsUrlPath, Bool.or_eq_false_iff, beq_eq_false_iff_ne]
    exact ⟨⟨hne '/' (by simp), hne '\\' (by simp)⟩, hne '?' (by simp), hne '#' (by simp)⟩

/-- Nothing in a front ends the path of a URL. -/
theorem plain_of_mem_front {front path : List Char} (hfront : IsFront front path) {c : Char}
    (hc : c ∈ front) : endsUrlPath c = false := by
  cases hfront with
  | bare hs =>
    rcases List.mem_append.1 hc with hc | hc
    · exact plain_of_mem_scheme hs hc
    · rw [List.mem_singleton.1 hc]
      decide
  | hosted hs _ hhost =>
    simp only [List.mem_append, List.mem_cons] at hc
    rcases hc with hc | rfl | rfl | rfl | hc
    · exact plain_of_mem_scheme hs hc
    · decide
    · decide
    · decide
    · exact (plain_of_mem_host hhost hc).2

/-- What is opened for a URL of the scheme of files, by what stands behind the colon. -/
theorem machinePath_file {s : List Char} (hs : isScheme s = true)
    (hfile : Text.sameFolded s fileScheme = true) (rest : List Char) :
    machinePath (s ++ ':' :: rest) =
      match rest with
      | '/' :: '/' :: rest =>
        let host := rest.takeWhile (· != '/')
        if host = [] ∨ Text.sameFolded host localHost = true then .ok (rest.drop host.length)
        else .error (fileScheme ++ ':' :: '/' :: '/' :: host)
      | rest => .ok rest := by
  have hscheme : scheme? (s ++ ':' :: rest) = some s := scheme?_eq_some_iff.2 ⟨hs, rest, rfl⟩
  unfold machinePath
  simp only [hscheme, drop_colon]
  exact if_pos hfile

/-- The path behind a front is the path that is opened. -/
theorem machinePath_front {front path : List Char} (hfront : IsFront front path) :
    machinePath (front ++ path) = .ok path := by
  cases hfront with
  | bare hs hfile hpath =>
    rw [List.append_assoc, List.singleton_append, machinePath_file hs hfile]
    split
    · simp [startsAuthority] at hpath
    · rfl
  | @hosted s host path hs hfile hhost hpath =>
    have htake : (host ++ path).takeWhile (· != '/') = host := by
      have hkeep : ∀ c ∈ host, (c != '/') = true := by
        intro c hc
        rw [bne_iff_ne]
        rintro rfl
        exact absurd (plain_of_mem_host hhost hc).1 (by decide)
      rw [List.takeWhile_append_of_pos hkeep]
      cases path with
      | nil => cases hpath
      | cons c path =>
        cases hpath
        exact List.append_nil host
    rw [List.append_assoc, List.cons_append, List.cons_append, List.cons_append,
      machinePath_file hs hfile]
    simp only [htake, if_pos hhost, List.drop_left]

/-- A URL of a file that is opened at a path is a front with that path behind it. -/
theorem exists_front {u path s : List Char} (hscheme : scheme? u = some s)
    (hfile : Text.sameFolded s fileScheme = true) (hpath : machinePath u = .ok path)
    (hne : path ≠ []) : ∃ front, IsFront front path ∧ u = front ++ path := by
  rcases scheme?_eq_some_iff.1 hscheme with ⟨hs, rest, rfl⟩
  rw [machinePath_file hs hfile] at hpath
  split at hpath
  · next rest =>
    dsimp only at hpath
    split at hpath
    · next hhost =>
      have hsplit : rest.takeWhile (· != '/') ++ rest.dropWhile (· != '/') = rest :=
        List.takeWhile_append_dropWhile
      have hdrop : rest.dropWhile (· != '/') = path := by
        have hbehind : (rest.takeWhile (· != '/') ++ rest.dropWhile (· != '/')).drop
            (rest.takeWhile (· != '/')).length = rest.dropWhile (· != '/') := List.drop_left
        rw [hsplit] at hbehind
        rw [← hbehind]
        exact Except.ok.inj hpath
      have hhead : path.head? = some '/' := by
        have hnot := List.head?_dropWhile_not (· != '/') rest
        rw [hdrop] at hnot
        cases path with
        | nil => exact absurd rfl hne
        | cons c path => simpa using hnot
      refine ⟨s ++ ':' :: '/' :: '/' :: rest.takeWhile (· != '/'), .hosted hs hfile hhost hhead, ?_⟩
      rw [List.append_assoc, List.cons_append, List.cons_append, List.cons_append, ← hdrop, hsplit]
    · cases hpath
  · next hbare =>
    cases hpath
    refine ⟨s ++ [':'], .bare hs hfile ?_, by simp⟩
    rw [startsAuthority, Bool.eq_false_iff]
    intro hslashes
    obtain ⟨behind, hbehind⟩ := List.isPrefixOf_iff_prefix.1 hslashes
    exact hbare behind hbehind.symm

/-! ## Directories -/

theorem joiner_of_posix {d : List Char} (posix : '\\' ∉ d) : joiner d = '/' := by
  have hcontains : d.contains '\\' = false := by simpa using posix
  rw [joiner, hcontains]
  simp

section

variable {before after f : List Char}

/-- The directory of a location, by what stands before its last slash. -/
theorem directory_of_cut (hafter : ∀ c ∈ after, isSeparator c = false)
    (hquery : withoutQuery (before ++ '/' :: after) = before ++ '/' :: after)
    (houtside : endsInAuthority (before ++ '/' :: after) before = false) :
    directory (before ++ '/' :: after) =
      if endsAtRoot (before ++ '/' :: after) before then before ++ ['/'] else before := by
  rw [directory_of_last hquery (by decide) hafter, hquery, houtside, if_neg Bool.false_ne_true]

theorem directory_prefix_of_cut (hafter : ∀ c ∈ after, isSeparator c = false)
    (hquery : withoutQuery (before ++ '/' :: after) = before ++ '/' :: after)
    (houtside : endsInAuthority (before ++ '/' :: after) before = false) :
    directory (before ++ '/' :: after) <+: before ++ '/' :: after := by
  rw [directory_of_cut hafter hquery houtside]
  split
  · exact ⟨after, by simp⟩
  · exact List.prefix_append _ _

/-- Where a name leads from the directory of a location, by what stands before its last slash. -/
theorem resolve_directory (hf : IsName f) (relative : isAbsolute f = false)
    (posix : '\\' ∉ before) (hafter : ∀ c ∈ after, isSeparator c = false)
    (hquery : withoutQuery (before ++ '/' :: after) = before ++ '/' :: after)
    (houtside : endsInAuthority (before ++ '/' :: after) before = false) :
    resolve (directory (before ++ '/' :: after)) f =
      if isRootUrl (directory (before ++ '/' :: after)) (trimSeparators before) then
        directory (before ++ '/' :: after) ++ f
      else trimSeparators before ++ '/' :: f := by
  have hjoiner : joiner (directory (before ++ '/' :: after)) = '/' := by
    apply joiner_of_posix
    intro hmem
    have hmem := (directory_prefix_of_cut hafter hquery houtside).subset hmem
    simp only [List.mem_append, List.mem_cons] at hmem
    rcases hmem with hmem | hmem | hmem
    · exact posix hmem
    · exact absurd hmem (by decide)
    · exact absurd (hafter _ hmem) (by decide)
  rw [resolve_name hf relative (directory_ne_nil _),
    trimSeparators_directory (by decide) hafter hquery houtside, hjoiner]

/-- The directory of a URL is a root only if nothing but the scheme is left of it and an
authority stands behind that. -/
theorem isRootUrl_eq_false {u s d t : List Char} (hscheme : scheme? u = some s) (hd : d <+: u)
    (h : t.length = s.length + 1 → startsAuthority (u.drop (s.length + 1)) = false) :
    isRootUrl d t = false := by
  unfold isRootUrl
  split
  · next s' hs' =>
    obtain ⟨rest, rfl⟩ := hd
    rw [scheme?_append hs', Option.some.injEq] at hscheme
    subst hscheme
    rw [Bool.and_eq_false_iff, beq_eq_false_iff_ne, Bool.eq_false_iff]
    by_cases hlength : t.length = s'.length + 1
    · right
      intro hslashes
      rw [hlength] at hslashes
      have hmore : d.drop (s'.length + 1) <+: (d ++ rest).drop (s'.length + 1) := by
        rw [List.drop_append]
        exact List.prefix_append _ _
      have hbare := h hlength
      rw [startsAuthority, Bool.eq_false_iff] at hbare
      exact hbare (List.isPrefixOf_iff_prefix.2
        ((List.isPrefixOf_iff_prefix.1 hslashes).trans hmore))
    · exact .inl hlength
  · rfl

/-- The separators at the end of a path with slashes only are slashes. -/
theorem exists_slashes {p : List Char} (posix : '\\' ∉ p) :
    ∃ run, p = trimSeparators p ++ run ∧ ∀ c ∈ run, c = '/' := by
  obtain ⟨run, hsplit, hseps⟩ := exists_separators p
  refine ⟨run, hsplit, fun c hc => ?_⟩
  apply eq_slash_of_isSeparator posix
  · rw [hsplit]
    exact List.mem_append_right _ hc
  · exact hseps c hc

/-- What trimming leaves of a path differs from it by slashes only. -/
theorem squeeze_trimSeparators (posix : '\\' ∉ before) (rest : List Char) :
    squeeze (trimSeparators before ++ '/' :: rest) = squeeze (before ++ '/' :: rest) := by
  obtain ⟨run, hsplit, hslashes⟩ := exists_slashes posix
  have hsqueeze := squeeze_append_slashes hslashes (trimSeparators before) rest
  rw [← hsplit] at hsqueeze
  exact hsqueeze.symm

/-- A name in place of the last one on a path that does not begin with two slashes does not make
it begin with two slashes. -/
theorem startsAuthority_trimSeparators (hf : IsName f)
    (hbare : startsAuthority (before ++ '/' :: after) = false) :
    startsAuthority (trimSeparators before ++ '/' :: f) = false := by
  rw [Bool.eq_false_iff, ne_eq, startsAuthority_iff]
  intro hslashes
  obtain ⟨rest, hrest⟩ := hslashes
  obtain ⟨run, hsplit, -⟩ := exists_separators before
  match htrim : trimSeparators before with
  | [] =>
    rw [htrim] at hrest
    have hno := hf.no_separator '/' (by simp [(List.cons.inj hrest).2])
    exact absurd hno (by decide)
  | [c] =>
    rw [htrim] at hrest
    have hno : isSeparator c = false := not_isSeparator_of_trimSeparators (t := []) htrim
    rw [(List.cons.inj hrest).1] at hno
    exact absurd hno (by decide)
  | c :: d :: t =>
    rw [htrim] at hrest hsplit
    rw [hsplit, (List.cons.inj hrest).1, (List.cons.inj (List.cons.inj hrest).2).1] at hbare
    cases hbare

/-- A name in the directory of a URL without an authority. -/
theorem exists_rest_bare (hf : IsName f) (relative : isAbsolute f = false) {s : List Char}
    (hs : isScheme s = true) (hfile : Text.sameFolded s fileScheme = true)
    (hbare : startsAuthority (before ++ '/' :: after) = false)
    (posix : '\\' ∉ s ++ [':'] ++ before) (hafter : ∀ c ∈ after, isSeparator c = false)
    (hquery : withoutQuery (s ++ [':'] ++ before ++ '/' :: after) =
      s ++ [':'] ++ before ++ '/' :: after) :
    ∃ rest, resolve (directory (s ++ [':'] ++ before ++ '/' :: after)) f = s ++ [':'] ++ rest ∧
      IsFront (s ++ [':']) rest ∧ squeeze rest = squeeze (before ++ '/' :: f) := by
  have hposix : '\\' ∉ before := fun hmem => posix (List.mem_append_right _ hmem)
  have hscheme : scheme? (s ++ [':'] ++ before ++ '/' :: after) = some s :=
    scheme?_eq_some_iff.2 ⟨hs, before ++ '/' :: after, by simp⟩
  have hdrop : (s ++ [':'] ++ before ++ '/' :: after).drop (s.length + 1) =
      before ++ '/' :: after := by
    rw [List.append_assoc, List.append_assoc]
    exact drop_colon s _
  have houtside : endsInAuthority (s ++ [':'] ++ before ++ '/' :: after) (s ++ [':'] ++ before) =
      false := by
    rw [endsInAuthority, hscheme]
    simp only [hdrop, hbare, Bool.false_and]
  have hroot : isRootUrl (directory (s ++ [':'] ++ before ++ '/' :: after))
      (trimSeparators (s ++ [':'] ++ before)) = false := by
    apply isRootUrl_eq_false hscheme (directory_prefix_of_cut hafter hquery houtside)
    intro _
    rw [hdrop, hbare]
  have htrim : trimSeparators (s ++ [':'] ++ before) = s ++ [':'] ++ trimSeparators before :=
    trimSeparators_behind s (by decide) before
  refine ⟨trimSeparators before ++ '/' :: f, ?_, .bare hs hfile ?_, squeeze_trimSeparators hposix f⟩
  · rw [resolve_directory hf relative posix hafter hquery houtside, hroot,
      if_neg Bool.false_ne_true, htrim, List.append_assoc]
  · exact startsAuthority_trimSeparators hf hbare

/-- The directory of a URL with an empty authority and nothing but slashes up to the last one
keeps all of them. -/
theorem exists_directory_of_empty_host {s : List Char} (hs : isScheme s = true)
    (hslashes : ∀ c ∈ before, c = '/') (hafter : ∀ c ∈ after, isSeparator c = false)
    (hquery : withoutQuery (s ++ [':', '/', '/'] ++ before ++ '/' :: after) =
      s ++ [':', '/', '/'] ++ before ++ '/' :: after) :
    ∃ run, (∀ c ∈ run, c = '/') ∧
      directory (s ++ [':', '/', '/'] ++ before ++ '/' :: after) =
        s ++ [':', '/', '/'] ++ (run ++ ['/']) := by
  have hscheme : scheme? (s ++ [':', '/', '/'] ++ before ++ '/' :: after) = some s :=
    scheme?_eq_some_iff.2 ⟨hs, '/' :: '/' :: (before ++ '/' :: after), by simp⟩
  have houtside : endsInAuthority (s ++ [':', '/', '/'] ++ before ++ '/' :: after)
      (s ++ [':', '/', '/'] ++ before) = false := by
    apply endsInAuthority_of_length hscheme
    simp only [List.length_append, List.length_cons, List.length_nil]
    omega
  rw [directory_of_cut hafter hquery houtside]
  rcases List.eq_nil_or_concat before with rfl | ⟨run, c, hbefore⟩
  · have hroot : endsAtRoot (s ++ [':', '/', '/'] ++ [] ++ '/' :: after)
        (s ++ [':', '/', '/'] ++ []) = true := by
      rw [endsAtRoot, hscheme, Bool.or_eq_true]
      right
      simp [startsAuthority]
    exact ⟨[], by simp, by rw [if_pos hroot, List.append_nil, List.nil_append]⟩
  · rw [List.concat_eq_append] at hbefore
    have hlast : c = '/' := hslashes c (by simp [hbefore])
    by_cases hroot : endsAtRoot (s ++ [':', '/', '/'] ++ before ++ '/' :: after)
        (s ++ [':', '/', '/'] ++ before) = true
    · exact ⟨before, hslashes, by rw [if_pos hroot, List.append_assoc]⟩
    · refine ⟨run, fun d hd => hslashes d (by simp [hbefore, hd]), ?_⟩
      rw [if_neg hroot, hbefore, hlast]

/-- A name in the directory of a URL with an empty authority and nothing but slashes up to the
last one. -/
theorem exists_rest_of_empty_host (hf : IsName f) (relative : isAbsolute f = false)
    {s : List Char} (hs : isScheme s = true) (hslashes : ∀ c ∈ before, c = '/')
    (hafter : ∀ c ∈ after, isSeparator c = false)
    (hquery : withoutQuery (s ++ [':', '/', '/'] ++ before ++ '/' :: after) =
      s ++ [':', '/', '/'] ++ before ++ '/' :: after) :
    ∃ rest, resolve (directory (s ++ [':', '/', '/'] ++ before ++ '/' :: after)) f =
        s ++ [':', '/', '/'] ++ rest ∧
      rest.head? = some '/' ∧ squeeze rest = squeeze (before ++ '/' :: f) := by
  obtain ⟨run, hrun, hdirectory⟩ := exists_directory_of_empty_host hs hslashes hafter hquery
  have hroot : IsRootUrl (s ++ [':', '/', '/'] ++ (run ++ ['/'])) := by
    refine ⟨s, run ++ ['/'], hs, ?_, by simp⟩
    intro c hc
    have hslash : c = '/' := by
      rcases List.mem_append.1 hc with hc | hc
      · exact hrun c hc
      · exact List.mem_singleton.1 hc
    rw [hslash]
    rfl
  refine ⟨run ++ '/' :: f, ?_, ?_, ?_⟩
  · rw [hdirectory, resolve_name hf relative (by simp), if_pos (isRootUrl_iff.2 hroot)]
    simp
  · cases run with
    | nil => rfl
    | cons c run => rw [hrun c (List.mem_cons_self ..)]; rfl
  · rw [squeeze_slashes hrun, squeeze_slashes hslashes]

/-- A name in the directory of a URL with an authority. -/
theorem exists_rest_hosted (hf : IsName f) (relative : isAbsolute f = false) {s host : List Char}
    (hs : isScheme s = true) (hhost : host = [] ∨ Text.sameFolded host localHost = true)
    (hroot : (before ++ '/' :: after).head? = some '/')
    (posix : '\\' ∉ s ++ ':' :: '/' :: '/' :: host ++ before)
    (hafter : ∀ c ∈ after, isSeparator c = false)
    (hquery : withoutQuery (s ++ ':' :: '/' :: '/' :: host ++ before ++ '/' :: after) =
      s ++ ':' :: '/' :: '/' :: host ++ before ++ '/' :: after) :
    ∃ rest, resolve (directory (s ++ ':' :: '/' :: '/' :: host ++ before ++ '/' :: after)) f =
        s ++ ':' :: '/' :: '/' :: host ++ rest ∧
      rest.head? = some '/' ∧ squeeze rest = squeeze (before ++ '/' :: f) := by
  have hposix : '\\' ∉ before := fun hmem => posix (List.mem_append_right _ hmem)
  obtain ⟨run, hsplit, hslashes⟩ := exists_slashes hposix
  by_cases hempty : host = [] ∧ trimSeparators before = []
  · obtain ⟨rfl, hnil⟩ := hempty
    rw [hnil, List.nil_append] at hsplit
    rw [← hsplit] at hslashes
    exact exists_rest_of_empty_host hf relative hs hslashes hafter hquery
  have htrim : trimSeparators (s ++ ':' :: '/' :: '/' :: host ++ before) =
      s ++ ':' :: '/' :: '/' :: host ++ trimSeparators before := by
    rcases List.eq_nil_or_concat host with rfl | ⟨t, c, hlast⟩
    · exact trimSeparators_append_left _ fun hnil => hempty ⟨rfl, hnil⟩
    · rw [List.concat_eq_append] at hlast
      subst hlast
      have hc := (plain_of_mem_host hhost (by simp : c ∈ t ++ [c])).1
      have hfront :
          s ++ ':' :: '/' :: '/' :: (t ++ [c]) = s ++ ':' :: '/' :: '/' :: t ++ [c] := by
        simp
      rw [hfront, trimSeparators_behind _ hc]
  have hscheme : scheme? (s ++ ':' :: '/' :: '/' :: host ++ before ++ '/' :: after) = some s :=
    scheme?_eq_some_iff.2 ⟨hs, '/' :: '/' :: host ++ before ++ '/' :: after, by simp⟩
  have houtside : endsInAuthority (s ++ ':' :: '/' :: '/' :: host ++ before ++ '/' :: after)
      (s ++ ':' :: '/' :: '/' :: host ++ before) = false := by
    apply endsInAuthority_of_length hscheme
    simp only [List.length_append, List.length_cons]
    omega
  -- Something other than slashes stands behind the scheme, so the directory is not only a root.
  have hplace : isRootUrl (directory (s ++ ':' :: '/' :: '/' :: host ++ before ++ '/' :: after))
      (s ++ ':' :: '/' :: '/' :: host ++ trimSeparators before) = false := by
    apply isRootUrl_eq_false hscheme (directory_prefix_of_cut hafter hquery houtside)
    simp only [List.length_append, List.length_cons]
    omega
  refine ⟨trimSeparators before ++ '/' :: f, ?_, ?_, squeeze_trimSeparators hposix f⟩
  · rw [resolve_directory hf relative posix hafter hquery houtside, htrim, hplace,
      if_neg Bool.false_ne_true, List.append_assoc]
  · cases ht : trimSeparators before with
    | nil => rfl
    | cons c t =>
      rw [hsplit, ht] at hroot
      exact hroot

/-! ## Names beside a file of this machine -/

theorem posix_front {front path : List Char} (hfront : IsFront front path) : '\\' ∉ front := by
  intro hmem
  cases hfront with
  | bare hs => exact absurd (not_isSeparator_of_mem_scheme hs hmem) (by decide)
  | hosted hs _ hhost =>
    simp only [List.mem_append, List.mem_cons] at hmem
    rcases hmem with hmem | hmem | hmem | hmem | hmem
    · exact absurd (not_isSeparator_of_mem_scheme hs (List.mem_append_left [':'] hmem)) (by decide)
    · exact absurd hmem (by decide)
    · exact absurd hmem (by decide)
    · exact absurd hmem (by decide)
    · exact absurd (plain_of_mem_host hhost hmem).1 (by decide)

/-- Where a name beside a file leads, if there is a directory on the path. -/
theorem exists_path_of_slash (hf : IsName f) (relative : isAbsolute f = false)
    {front path : List Char} (hfront : IsFront front path) (posix : '\\' ∉ path)
    (hquery : withoutQuery (front ++ path) = front ++ path) (hslash : '/' ∈ path) :
    ∃ rest, machinePath (resolve (directory (front ++ path)) f) = .ok rest ∧
      squeeze rest = squeeze (beside path f) := by
  obtain ⟨before, after, rfl, hafter⟩ := exists_last_slash posix hslash
  have hposix : '\\' ∉ front ++ before := by
    intro hmem
    rcases List.mem_append.1 hmem with hmem | hmem
    · exact posix_front hfront hmem
    · exact posix (List.mem_append_left _ hmem)
  rw [← List.append_assoc] at hquery ⊢
  rw [beside_append before (notMem_of_no_separator hafter)]
  cases hfront with
  | bare hs hfile hbare =>
    obtain ⟨rest, hrest, hfront, hsqueeze⟩ :=
      exists_rest_bare hf relative hs hfile hbare hposix hafter hquery
    exact ⟨rest, by rw [hrest, machinePath_front hfront], hsqueeze⟩
  | hosted hs hfile hhost hroot =>
    obtain ⟨rest, hrest, hhead, hsqueeze⟩ :=
      exists_rest_hosted hf relative hs hhost hroot hposix hafter hquery
    have hfront := IsFront.hosted hs hfile hhost hhead
    exact ⟨rest, by rw [hrest, machinePath_front hfront], hsqueeze⟩

/-- The directory of a file whose path is a name is the current one. -/
theorem directory_of_no_slash {front path : List Char} (hfront : IsFront front path)
    (posix : '\\' ∉ path) (hquery : withoutQuery (front ++ path) = front ++ path)
    (hslash : '/' ∉ path) : directory (front ++ path) = ['.'] := by
  cases hfront with
  | hosted _ _ _ hroot => exact absurd (List.mem_of_mem_head? hroot) hslash
  | @bare s _ hs =>
    apply directory_of_no_separator
    rw [hquery]
    intro c hc
    rcases List.mem_append.1 hc with hc | hc
    · exact not_isSeparator_of_mem_scheme hs hc
    · rw [Bool.eq_false_iff]
      exact fun hsep => hslash (eq_slash_of_isSeparator posix hc hsep ▸ hc)

theorem machinePath_here (f : List Char) :
    machinePath ('.' :: '/' :: f) = .ok ('.' :: '/' :: f) := by
  have hscheme : scheme? ('.' :: '/' :: f) = none := by
    rw [Option.eq_none_iff_forall_ne_some]
    intro s hs
    obtain ⟨hletter, rest, hrest⟩ := scheme?_eq_some_iff.1 hs
    match s, hletter with
    | c :: d :: s, hletter =>
      rw [← (List.cons.inj hrest).1] at hletter
      cases hletter
  rw [machinePath, hscheme]

/-- Where a name beside a file leads, if nothing in the URL ends its path. -/
theorem exists_path_of_plain (hf : IsName f) (relative : isAbsolute f = false)
    {front path : List Char} (hfront : IsFront front path) (posix : '\\' ∉ path)
    (plain : ∀ c ∈ path, endsUrlPath c = false) :
    ∃ rest, machinePath (resolve (directory (front ++ path)) f) = .ok rest ∧
      squeeze rest = squeeze (beside path f) := by
  have hquery : withoutQuery (front ++ path) = front ++ path := by
    apply withoutQuery_eq_self
    intro _ c hc
    rcases List.mem_append.1 hc with hc | hc
    · exact plain_of_mem_front hfront hc
    · exact plain c hc
  by_cases hslash : '/' ∈ path
  · exact exists_path_of_slash hf relative hfront posix hquery hslash
  · refine ⟨'.' :: '/' :: f, ?_, by rw [beside_of_notMem hslash]⟩
    rw [directory_of_no_slash hfront posix hquery hslash, resolve_name hf relative (by simp)]
    exact machinePath_here f

theorem isFront_beforeQuery {front path : List Char} (hfront : IsFront front path) :
    IsFront front (beforeQuery path) := by
  have hprefix : beforeQuery path <+: path := List.takeWhile_prefix _
  cases hfront with
  | bare hs hfile hbare =>
    refine .bare hs hfile ?_
    rw [Bool.eq_false_iff, ne_eq, startsAuthority, List.isPrefixOf_iff_prefix] at hbare ⊢
    exact fun hslashes => hbare (hslashes.trans hprefix)
  | hosted hs hfile hhost hroot =>
    refine .hosted hs hfile hhost ?_
    cases path with
    | nil => cases hroot
    | cons c path =>
      cases hroot
      rfl

/-- Where a name beside a file leads.  What would be a query or a fragment takes no part. -/
theorem exists_path_beside (hf : IsName f) (relative : isAbsolute f = false)
    {front path : List Char} (hfront : IsFront front path) (posix : '\\' ∉ path) :
    ∃ rest, machinePath (resolve (directory (front ++ path)) f) = .ok rest ∧
      squeeze rest = squeeze (beside (beforeQuery path) f) := by
  have hsplit : path = beforeQuery path ++ path.dropWhile fun c => !endsUrlPath c :=
    List.takeWhile_append_dropWhile.symm
  have hplain : ∀ c ∈ beforeQuery path, endsUrlPath c = false := by
    intro c hc
    simpa using List.all_eq_true.1 (List.all_takeWhile : (beforeQuery path).all _ = true) c hc
  have hposix : '\\' ∉ beforeQuery path := fun hmem => posix ((List.takeWhile_prefix _).subset hmem)
  have hfront' := isFront_beforeQuery hfront
  have hdirectory : directory (front ++ path) = directory (front ++ beforeQuery path) := by
    cases hquery : path.dropWhile fun c => !endsUrlPath c with
    | nil =>
      rw [hquery, List.append_nil] at hsplit
      rw [← hsplit]
    | cons c q =>
      have hc : endsUrlPath c = true := by
        have hnot := List.head?_dropWhile_not (fun c => !endsUrlPath c) path
        rw [hquery] at hnot
        simpa using hnot
      obtain ⟨s, -, hscheme⟩ := exists_scheme_of_front hfront
      have hurl : (scheme? (front ++ beforeQuery path)).isSome = true := by
        rw [hscheme]
        rfl
      have hu : ∀ c ∈ front ++ beforeQuery path, endsUrlPath c = false := by
        intro c hc
        rcases List.mem_append.1 hc with hc | hc
        · exact plain_of_mem_front hfront hc
        · exact hplain c hc
      rw [hquery] at hsplit
      rw [hsplit, ← List.append_assoc, ← hsplit]
      exact directory_append_query hurl hu ⟨c, q, rfl, hc⟩
  rw [hdirectory]
  exact exists_path_of_plain hf relative hfront' hposix hplain

end

end Chars

/-! ## The asset map of a file -/

/-- A file on this machine that is named by a URL has its asset map looked for beside it, in the
directory of its path in front of the first question mark or number sign.  That is the directory
of the file if the name of no directory on the path has one of these. -/
theorem machinePath_mapUrl {settings : Settings} {u s p : String}
    (unchosen : settings.assetMap = none) (hscheme : scheme? u = some s)
    (hfile : Text.sameFolded s.toList fileScheme = true) (hpath : machinePath u = .ok p)
    (hne : p ≠ "") (posix : '\\' ∉ p.toList) :
    ∃ m : String, machinePath (settings.mapUrl u) = .ok m ∧
      squeeze m.toList = squeeze (beside (beforeQuery p.toList) Settings.assetMapName.toList) ∧
      (HasPlainDirectory p.toList →
        squeeze m.toList = squeeze (beside p.toList Settings.assetMapName.toList)) := by
  have hchars : Chars.scheme? u.toList = some s.toList := by
    rw [scheme?, Option.map_eq_some_iff] at hscheme
    obtain ⟨t, ht, rfl⟩ := hscheme
    rw [ht, String.toList_ofList]
  have hopened : Chars.machinePath u.toList = .ok p.toList := by
    unfold machinePath at hpath
    split at hpath
    · next path hmachine =>
      cases hpath
      rw [hmachine, String.toList_ofList]
    · cases hpath
  have hnil : p.toList ≠ [] := by
    rw [ne_eq, String.toList_eq_nil_iff]
    exact hne
  obtain ⟨front, hfront, hu⟩ := Chars.exists_front hchars hfile hopened hnil
  obtain ⟨rest, hrest, hsqueeze⟩ :=
    Chars.exists_path_beside isName_assetMapName (by decide) hfront posix
  have hmap : settings.mapUrl u = resolve (directory u) Settings.assetMapName := by
    unfold Settings.mapUrl
    rw [unchosen]
  refine ⟨String.ofList rest, ?_, ?_, ?_⟩
  · rw [hmap, resolve, directory, String.toList_ofList, hu, machinePath, String.toList_ofList,
      hrest]
  · rw [String.toList_ofList, hsqueeze]
  · intro plain
    rw [String.toList_ofList, hsqueeze, beside_beforeQuery posix plain]

/-- A question mark in the name of the file, letters of either case, this machine as the host and
a run of slashes. -/
theorem machinePath_mapUrl_localHost :
    ∃ m : String, machinePath (Settings.default.mapUrl "FILE://LocalHost//a/b/CPL?x.xml") = .ok m ∧
      squeeze m.toList = "/a/b/ASSETMAP.xml".toList := by
  obtain ⟨m, hm, -, hbeside⟩ :=
    @machinePath_mapUrl Settings.default "FILE://LocalHost//a/b/CPL?x.xml" "FILE"
      "//a/b/CPL?x.xml" rfl (by decide) (by decide) (by rfl) (by decide) (by decide)
  exact ⟨m, hm, hbeside (by decide)⟩

/-- The asset map is not looked for beside a file whose directory has a question mark in its
name. -/
theorem mapUrl_of_query_in_directory :
    Settings.default.assetMap = none ∧ scheme? "file:a?b/CPL.xml" = some "file" ∧
      machinePath "file:a?b/CPL.xml" = .ok "a?b/CPL.xml" ∧ '\\' ∉ "a?b/CPL.xml".toList ∧
      ¬∃ m : String, machinePath (Settings.default.mapUrl "file:a?b/CPL.xml") = .ok m ∧
        squeeze m.toList = squeeze (beside "a?b/CPL.xml".toList Settings.assetMapName.toList) := by
  refine ⟨rfl, by decide, by rfl, by decide, ?_⟩
  intro h
  obtain ⟨m, hm, hsqueeze⟩ := h
  have hmap : machinePath (Settings.default.mapUrl "file:a?b/CPL.xml") = .ok "./ASSETMAP.xml" := by
    rfl
  rw [hmap] at hm
  cases hm
  exact absurd hsqueeze (by decide)

end MasterPackage.Location
