import MasterPackage.Proofs.Location.Origin
import MasterPackage.Proofs.Text.Case

/-!
# Names of playlists

A location could name a playlist if its last segment has the extension of XML and something in
front of that.  The last segment is the name of a file, except for two kinds of URLs that have no
separator in their paths.  A URL that ends with its authority has no path at all, so it is its own
directory, but the host is taken for a name.  And where only the scheme stands in front of a name,
the scheme is taken for a part of it.

* `Chars.lastSegment_eq_iff`, `Chars.cutExtension?_eq_some_iff`: the last segment and the
  extension, by what stands around them.
* `Chars.namesPlaylist_iff`: what could name a playlist, by the last segment.
* `Chars.lastSegmentOf`: where the last segment of a location comes from.
* `namesPlaylist_by_path`: the law for every location, and exactly when the name of its file
  decides.
-/

namespace MasterPackage.Location

/-- What stands behind the authority in front of a text, from the first separator on; all of the
text if no authority is in front of it. -/
def Chars.behindAuthority? : List Char → Option (List Char)
  | '/' :: '/' :: p =>
    match p.dropWhile fun c => !isSeparator c with
    | [] => none
    | path => some path
  | p => some p

/-- The path of a location: all of it, unless it is a URL.  A URL has what stands behind its scheme
and its authority, up to the query or the fragment, and none if it ends with the authority. -/
def Chars.path? (u : List Char) : Option (List Char) :=
  match scheme? u with
  | none => some u
  | some s => behindAuthority? ((withoutQuery u).drop (s.length + 1))

/-- A segment is the last one of a path: it has no separator in it, and is all of the path or
stands behind a separator. -/
structure IsLastSegment (path name : List Char) : Prop where
  no_separator : ∀ c ∈ name, isSeparator c = false
  path_eq : path = name ∨ ∃ front sep, path = front ++ sep :: name ∧ isSeparator sep = true

/-- The path of a location ends with the name of a file. -/
def HasFileName (u name : List Char) : Prop :=
  ∃ path, Chars.path? u = some path ∧ IsLastSegment path name

/-- The extension of XML, in any letter case. -/
def IsXml (ext : List Char) : Prop := Text.sameFolded ext ['x', 'm', 'l'] = true

instance (ext : List Char) : Decidable (IsXml ext) := inferInstanceAs (Decidable (_ = true))

/-- A name has the extension of XML behind its last point, and something before that. -/
def IsXmlName (name : List Char) : Prop :=
  ∃ stem ext, name = stem ++ '.' :: ext ∧ '.' ∉ ext ∧ stem ≠ [] ∧ IsXml ext

/-- The last segment of a URL is that of an XML file, but its path has no such name. -/
inductive IsMistaken (u : List Char) : Prop
  /-- The URL ends with its authority, and that looks like the name. -/
  | host {s host : List Char} : isScheme s = true →
    Chars.withoutQuery u = s ++ ':' :: '/' :: '/' :: host →
    (∀ c ∈ host, isSeparator c = false) → IsXmlName host → IsMistaken u
  /-- The name is nothing but an extension, with the scheme in front of it. -/
  | extension {s ext : List Char} : isScheme s = true →
    Chars.withoutQuery u = s ++ ':' :: '.' :: ext → IsXml ext → IsMistaken u

namespace Chars

/-! ## Last segments -/

/-- What stands behind the last separator of a path. -/
def lastSegment (p : List Char) : List Char :=
  match cutLast? p with
  | none => p
  | some (_, _, after) => after

variable {u p name : List Char} {sep : Char}

theorem fileName_eq (u : List Char) : fileName u = lastSegment (withoutQuery u) := rfl

theorem lastSegment_of_no_separator (hnone : ∀ c ∈ p, isSeparator c = false) :
    lastSegment p = p := by
  rw [lastSegment, cutLast?_eq_none_iff.2 hnone]

/-- What stands in front of a separator has no part in the last segment. -/
theorem lastSegment_append (front : List Char) (hsep : isSeparator sep = true) (p : List Char) :
    lastSegment (front ++ sep :: p) = lastSegment p := by
  rcases separators_cases p with hnone | ⟨before, sep', after, rfl, hsep', hafter⟩
  · rw [lastSegment_of_no_separator hnone, lastSegment, cutLast?_append hsep hnone]
  · have hassoc : front ++ sep :: (before ++ sep' :: after) =
        (front ++ sep :: before) ++ sep' :: after := by simp
    rw [hassoc, lastSegment, lastSegment, cutLast?_append hsep' hafter,
      cutLast?_append hsep' hafter]

theorem lastSegment_append_of_separator (front : List Char)
    (hsome : ∃ c ∈ p, isSeparator c = true) : lastSegment (front ++ p) = lastSegment p := by
  obtain ⟨c, hc, hsep⟩ := hsome
  obtain ⟨before, after, rfl⟩ := List.append_of_mem hc
  rw [← List.append_assoc, lastSegment_append _ hsep, lastSegment_append _ hsep]

theorem lastSegment_of_authority (s host : List Char) :
    lastSegment (s ++ ':' :: '/' :: '/' :: host) = lastSegment host := by
  have hfront : s ++ ':' :: '/' :: '/' :: host = (s ++ [':', '/']) ++ '/' :: host := by simp
  rw [hfront, lastSegment_append _ rfl]

theorem no_separator_behind_scheme {s : List Char} (hs : isScheme s = true)
    (hnone : ∀ c ∈ p, isSeparator c = false) : ∀ c ∈ s ++ ':' :: p, isSeparator c = false := by
  intro c hc
  rw [List.append_cons] at hc
  rcases List.mem_append.1 hc with hc | hc
  · exact not_isSeparator_of_mem_scheme hs hc
  · exact hnone c hc

theorem lastSegment_eq_iff : lastSegment p = name ↔ IsLastSegment p name := by
  constructor
  · intro h
    subst h
    rcases separators_cases p with hnone | ⟨before, sep, after, rfl, hsep, hafter⟩
    · rw [lastSegment_of_no_separator hnone]
      exact ⟨hnone, .inl rfl⟩
    · rw [lastSegment_append before hsep, lastSegment_of_no_separator hafter]
      exact ⟨hafter, .inr ⟨before, sep, rfl, hsep⟩⟩
  · intro h
    rcases h.path_eq with rfl | ⟨front, sep, rfl, hsep⟩
    · exact lastSegment_of_no_separator h.no_separator
    · rw [lastSegment_append front hsep, lastSegment_of_no_separator h.no_separator]

theorem hasFileName_iff : HasFileName u name ↔ (path? u).map lastSegment = some name := by
  rw [Option.map_eq_some_iff]
  constructor
  · intro h
    obtain ⟨path, hpath, hlast⟩ := h
    exact ⟨path, hpath, lastSegment_eq_iff.2 hlast⟩
  · intro h
    obtain ⟨path, hpath, hlast⟩ := h
    exact ⟨path, hpath, lastSegment_eq_iff.1 hlast⟩

/-! ## Extensions -/

theorem cutExtension?_eq_none (h : '.' ∉ name) : cutExtension? name = none := by
  induction name with
  | nil => rfl
  | cons c name ih =>
    rw [List.mem_cons, not_or] at h
    rw [cutExtension?, ih h.2]
    exact if_neg (Ne.symm h.1)

theorem cutExtension?_append (stem : List Char) {ext : List Char} (h : '.' ∉ ext) :
    cutExtension? (stem ++ '.' :: ext) = some (stem, ext) := by
  induction stem with
  | nil =>
    rw [List.nil_append, cutExtension?, cutExtension?_eq_none h]
    exact if_pos rfl
  | cons c stem ih => rw [List.cons_append, cutExtension?, ih]

/-- A name is cut at its last point. -/
theorem cutExtension?_eq_some_iff {stem ext : List Char} :
    cutExtension? name = some (stem, ext) ↔ name = stem ++ '.' :: ext ∧ '.' ∉ ext := by
  constructor
  · intro h
    by_cases hpoint : '.' ∈ name
    · obtain ⟨front, rest, hname, hlast⟩ := List.eq_append_cons_of_mem (List.mem_reverse.2 hpoint)
      have hsplit : name = rest.reverse ++ '.' :: front.reverse := by
        rw [← List.reverse_reverse name, hname]
        simp
      have hext : '.' ∉ front.reverse := fun hmem => hlast (List.mem_reverse.1 hmem)
      rw [hsplit, cutExtension?_append _ hext] at h
      cases h
      exact ⟨hsplit, hext⟩
    · rw [cutExtension?_eq_none hpoint] at h
      cases h
  · intro h
    rw [h.1, cutExtension?_append stem h.2]

theorem namesPlaylist_iff : namesPlaylist u = true ↔ IsXmlName (fileName u) := by
  unfold namesPlaylist IsXmlName
  simp only [← and_assoc, ← cutExtension?_eq_some_iff]
  rcases cutExtension? (fileName u) with _ | ⟨stem, ext⟩
  · simp
  · simp [IsXml, and_assoc]

/-- An extension of XML is made of letters. -/
theorem isAlpha_of_isXml {ext : List Char} (hext : IsXml ext) {c : Char} (hc : c ∈ ext) :
    c.isAlpha = true :=
  Text.isAlpha_of_sameFolded hext (by decide) hc

theorem no_point_of_isXml {ext : List Char} (hext : IsXml ext) : '.' ∉ ext := by
  intro hmem
  exact absurd (isAlpha_of_isXml hext hmem) (by decide)

/-- A scheme in front of a name makes no other difference than that something stands in front of
the point. -/
theorem isXmlName_behind_colon (s : List Char) :
    IsXmlName (s ++ ':' :: name) ↔ IsXmlName name ∨ ∃ ext, name = '.' :: ext ∧ IsXml ext := by
  constructor
  · intro h
    obtain ⟨stem, ext, hsplit, hpoint, -, hext⟩ := h
    have hbehind : ∃ front, name = front ++ '.' :: ext := by
      rcases List.append_eq_append_iff.1 hsplit with ⟨front, -, hfront⟩ | ⟨front, -, hfront⟩
      · cases front with
        | nil => cases hfront
        | cons c front =>
          cases hfront
          exact ⟨front, rfl⟩
      · -- the colon would stand in the extension
        cases front with
        | nil => cases hfront
        | cons c front =>
          have hcolon : ':' ∈ ext := by rw [(List.cons.inj hfront).2]; simp
          exact absurd (isAlpha_of_isXml hext hcolon) (by decide)
    obtain ⟨front, rfl⟩ := hbehind
    cases front with
    | nil => exact .inr ⟨ext, rfl, hext⟩
    | cons c front => exact .inl ⟨c :: front, ext, rfl, hpoint, List.cons_ne_nil c front, hext⟩
  · intro h
    rcases h with ⟨stem, ext, rfl, hpoint, -, hext⟩ | ⟨ext, rfl, hext⟩
    · exact ⟨s ++ ':' :: stem, ext, by simp, hpoint, by simp, hext⟩
    · exact ⟨s ++ [':'], ext, by simp, no_point_of_isXml hext, by simp, hext⟩

theorem no_separator_of_extension {ext : List Char} (hext : IsXml ext) :
    ∀ c ∈ '.' :: ext, isSeparator c = false := by
  rw [List.forall_mem_cons]
  refine ⟨by decide, fun c hc => ?_⟩
  rw [Bool.eq_false_iff]
  intro hsep
  have hletter := isAlpha_of_isXml hext hc
  rw [not_isAlpha_of_isSeparator hsep] at hletter
  cases hletter

/-! ## Paths -/

/-- A location without a scheme is a path. -/
theorem path?_of_no_scheme (hnone : scheme? u = none) :
    path? u = some u ∧ withoutQuery u = u := by
  constructor
  · rw [path?, hnone]
  · rw [withoutQuery, hnone]
    rfl

theorem path?_url {s : List Char} (hscheme : scheme? u = some s)
    (hquery : withoutQuery u = s ++ ':' :: p) : path? u = behindAuthority? p := by
  rw [path?, hscheme]
  simp only [hquery, drop_colon]

/-- What begins like a URL without its query is one. -/
theorem scheme?_of_withoutQuery {s : List Char} (hs : isScheme s = true)
    (hquery : withoutQuery u = s ++ ':' :: p) : scheme? u = some s := by
  cases hscheme : scheme? u with
  | none =>
    rw [(path?_of_no_scheme hscheme).2] at hquery
    rw [← hscheme, hquery]
    exact scheme?_eq_some_iff.2 ⟨hs, p, rfl⟩
  | some s' =>
    obtain ⟨hs', rest, rfl⟩ := scheme?_eq_some_iff.1 hscheme
    rw [withoutQuery_url hs'] at hquery
    rw [← scheme?_eq_some_iff.2 ⟨hs, p, hquery⟩]
    exact (scheme?_eq_some_iff.2 ⟨hs', _, rfl⟩).symm

theorem behindAuthority?_of_no_authority (h : startsAuthority p = false) :
    behindAuthority? p = some p := by
  unfold behindAuthority?
  split
  · cases h
  · rfl

theorem behindAuthority?_of_no_separator {host : List Char}
    (hnone : ∀ c ∈ host, isSeparator c = false) :
    behindAuthority? ('/' :: '/' :: host) = none := by
  have hkeep : ∀ c ∈ host, (!isSeparator c) = true := by
    intro c hc
    rw [hnone c hc]
    rfl
  have hdrop : (host ++ []).dropWhile (fun c => !isSeparator c) = [] :=
    List.dropWhile_append_of_pos hkeep
  rw [List.append_nil] at hdrop
  rw [behindAuthority?, hdrop]

/-- The path goes on from the first separator behind the authority. -/
theorem behindAuthority?_of_separator {q : List Char} (hsome : ∃ c ∈ q, isSeparator c = true) :
    ∃ host path, q = host ++ path ∧ (∃ c ∈ path, isSeparator c = true) ∧
      behindAuthority? ('/' :: '/' :: q) = some path := by
  have hsplit :
      (q.takeWhile fun c => !isSeparator c) ++ q.dropWhile (fun c => !isSeparator c) = q :=
    List.takeWhile_append_dropWhile
  cases hdrop : q.dropWhile fun c => !isSeparator c with
  | nil =>
    obtain ⟨c, hc, hsep⟩ := hsome
    rw [hdrop, List.append_nil] at hsplit
    rw [← hsplit] at hc
    have hnot := List.all_eq_true.1 List.all_takeWhile c hc
    rw [hsep] at hnot
    cases hnot
  | cons c path =>
    have hfirst := List.head?_dropWhile_not (fun c => !isSeparator c) q
    rw [hdrop] at hfirst hsplit
    refine ⟨_, c :: path, hsplit.symm, ⟨c, List.mem_cons_self, by simpa using hfirst⟩, ?_⟩
    rw [behindAuthority?, hdrop]

/-- How the last segment of a location is related to its path. -/
inductive LastSegmentOf (u : List Char) : Prop
  /-- It is the last segment of the path. -/
  | path {path : List Char} : path? u = some path → fileName u = lastSegment path →
    LastSegmentOf u
  /-- There is no path, and it is the authority. -/
  | host {s host : List Char} : isScheme s = true →
    withoutQuery u = s ++ ':' :: '/' :: '/' :: host → (∀ c ∈ host, isSeparator c = false) →
    path? u = none → fileName u = host → LastSegmentOf u
  /-- The path is one segment, and it is that segment with the scheme in front. -/
  | scheme {s path : List Char} : isScheme s = true → withoutQuery u = s ++ ':' :: path →
    path? u = some path → lastSegment path = path → fileName u = s ++ ':' :: path →
    LastSegmentOf u

theorem lastSegmentOf (u : List Char) : LastSegmentOf u := by
  cases hscheme : scheme? u with
  | none =>
    obtain ⟨hpath, hquery⟩ := path?_of_no_scheme hscheme
    exact .path hpath (by rw [fileName_eq, hquery])
  | some s =>
    obtain ⟨hs, rest, hu⟩ := scheme?_eq_some_iff.1 hscheme
    have hquery := @withoutQuery_url s rest hs
    rw [← hu] at hquery
    generalize (rest.takeWhile fun c => !endsUrlPath c) = p at hquery
    have hpath := path?_url hscheme hquery
    have hname : fileName u = lastSegment (s ++ ':' :: p) := by rw [fileName_eq, hquery]
    cases hslashes : startsAuthority p with
    | false =>
      rw [behindAuthority?_of_no_authority hslashes] at hpath
      rcases separators_cases p with hnone | ⟨before, sep, after, hp, hsep, -⟩
      · rw [lastSegment_of_no_separator (no_separator_behind_scheme hs hnone)] at hname
        exact .scheme hs hquery hpath (lastSegment_of_no_separator hnone) hname
      · have hsome : ∃ c ∈ p, isSeparator c = true := ⟨sep, by simp [hp], hsep⟩
        rw [List.append_cons, lastSegment_append_of_separator _ hsome] at hname
        exact .path hpath hname
    | true =>
      obtain ⟨q, rfl⟩ := startsAuthority_iff.1 hslashes
      rw [lastSegment_of_authority] at hname
      rcases separators_cases q with hnone | ⟨before, sep, after, hq, hsep, -⟩
      · rw [behindAuthority?_of_no_separator hnone] at hpath
        rw [lastSegment_of_no_separator hnone] at hname
        exact .host hs hquery hnone hpath hname
      · have hsome : ∃ c ∈ q, isSeparator c = true := ⟨sep, by simp [hq], hsep⟩
        obtain ⟨host, path, hsplit, hbehind, hcut⟩ := behindAuthority?_of_separator hsome
        rw [hcut] at hpath
        rw [hsplit, lastSegment_append_of_separator host hbehind] at hname
        exact .path hpath hname

/-! ## Names -/

theorem namesPlaylist_of_isMistaken (h : IsMistaken u) : namesPlaylist u = true := by
  rw [namesPlaylist_iff, fileName_eq]
  cases h with
  | host _ hquery hnone hname =>
    rw [hquery, lastSegment_of_authority, lastSegment_of_no_separator hnone]
    exact hname
  | extension hs hquery hext =>
    rw [hquery, lastSegment_of_no_separator (no_separator_behind_scheme hs _)]
    · exact (isXmlName_behind_colon _).2 (.inr ⟨_, rfl, hext⟩)
    · exact no_separator_of_extension hext

/-- A location that is mistaken has no file with such a name. -/
theorem not_isXmlName_of_isMistaken (h : IsMistaken u) {name : List Char}
    (hname : HasFileName u name) : ¬IsXmlName name := by
  rw [hasFileName_iff] at hname
  cases h with
  | host hs hquery hnone =>
    rw [path?_url (scheme?_of_withoutQuery hs hquery) hquery,
      behindAuthority?_of_no_separator hnone] at hname
    cases hname
  | @extension s ext hs hquery hext =>
    rw [path?_url (scheme?_of_withoutQuery hs hquery) hquery,
      behindAuthority?_of_no_authority rfl, Option.map_some,
      lastSegment_of_no_separator (no_separator_of_extension hext)] at hname
    cases hname
    intro hxml
    obtain ⟨stem, ext', hsplit, -, hne, -⟩ := hxml
    cases stem with
    | nil => exact hne rfl
    | cons c stem =>
      -- the point in front of the extension is the only one
      have hpoint : '.' ∈ ext := by rw [(List.cons.inj hsplit).2]; simp
      exact no_point_of_isXml hext hpoint

/-- A location could name a playlist if the name of its file does, or if it is mistaken. -/
theorem namesPlaylist_iff_name_or_mistaken :
    namesPlaylist u = true ↔ (∃ name, HasFileName u name ∧ IsXmlName name) ∨ IsMistaken u := by
  simp only [hasFileName_iff]
  constructor
  · intro h
    rw [namesPlaylist_iff] at h
    cases lastSegmentOf u with
    | path hpath hname => exact .inl ⟨_, congrArg (Option.map lastSegment) hpath, hname ▸ h⟩
    | host hs hquery hnone _ hname => exact .inr (.host hs hquery hnone (hname ▸ h))
    | @scheme s path hs hquery hpath hlast hname =>
      rw [hname, isXmlName_behind_colon] at h
      rcases h with h | ⟨ext, hext, hxml⟩
      · exact .inl ⟨path, by rw [hpath, Option.map_some, hlast], h⟩
      · exact .inr (.extension hs (hext ▸ hquery) hxml)
  · intro h
    rcases h with ⟨name, hname, hxml⟩ | h
    · rw [namesPlaylist_iff]
      cases lastSegmentOf u with
      | path hpath hfile =>
        rw [hpath, Option.map_some, Option.some.injEq] at hname
        rw [hfile, hname]
        exact hxml
      | host _ _ _ hpath =>
        rw [hpath] at hname
        cases hname
      | @scheme s path _ _ hpath hlast hfile =>
        rw [hpath, Option.map_some, Option.some.injEq, hlast] at hname
        rw [hfile, hname]
        exact (isXmlName_behind_colon s).2 (.inl hxml)
    · exact namesPlaylist_of_isMistaken h

/-- A URL that ends with its authority is its own directory. -/
theorem directory_of_no_path (h : path? u = none) : directory u = withoutQuery u := by
  cases lastSegmentOf u with
  | path hpath =>
    rw [hpath] at h
    cases h
  | scheme _ _ hpath =>
    rw [hpath] at h
    cases h
  | @host s host hs hquery hnone =>
    have hcut : withoutQuery u = (s ++ [':', '/']) ++ '/' :: host := by simp [hquery]
    have hscheme : scheme? (withoutQuery u) = some s :=
      scheme?_eq_some_iff.2 ⟨hs, '/' :: '/' :: host, hquery⟩
    have hinside : endsInAuthority (withoutQuery u) (s ++ [':', '/']) = true := by
      rw [endsInAuthority, hscheme]
      simp only [hquery, drop_colon, startsAuthority_iff.2 ⟨host, rfl⟩, Bool.true_and,
        decide_eq_true_eq, List.length_append, List.length_cons, List.length_nil]
      omega
    rw [directory_of_last hcut rfl hnone, if_pos hinside]

end Chars

/-! ## Every location -/

/-- A location could name a playlist if the name of its file, which is the last segment of its
path, has the extension of XML behind its last point and something in front of that; and in two
more cases, and then there is no such name.  So the name of the file decides exactly if the
location is none of these.  In one of them the URL has no path, so that it is its own directory, and
the host is taken for the name. -/
theorem namesPlaylist_by_path (u : String) :
    (Chars.path? u.toList = none → (directory u).toList = Chars.withoutQuery u.toList) ∧
    (namesPlaylist u = true ↔
      (∃ name, HasFileName u.toList name ∧ IsXmlName name) ∨ IsMistaken u.toList) ∧
    ((namesPlaylist u = true ↔ ∃ name, HasFileName u.toList name ∧ IsXmlName name) ↔
      ¬IsMistaken u.toList) := by
  have hnames : namesPlaylist u = true ↔
      (∃ name, HasFileName u.toList name ∧ IsXmlName name) ∨ IsMistaken u.toList :=
    Chars.namesPlaylist_iff_name_or_mistaken
  refine ⟨?_, hnames, ?_⟩
  · intro hpath
    rw [directory, String.toList_ofList]
    exact Chars.directory_of_no_path hpath
  · constructor
    · intro hdecides hmistaken
      obtain ⟨name, hname, hxml⟩ := hdecides.1 (hnames.2 (.inr hmistaken))
      exact Chars.not_isXmlName_of_isMistaken hmistaken hname hxml
    · intro hmistaken
      rw [hnames]
      exact or_iff_left hmistaken

namespace Sample

/-- A URL that is nothing but a scheme and a host with the right ending. -/
theorem isMistaken_host : IsMistaken "https://host.xml".toList := by
  have plain : ("host.xml".toList.all fun c => !isSeparator c) = true := by decide
  have xml : IsXmlName "host.xml".toList :=
    ⟨"host".toList, "xml".toList, by decide, by decide, by decide, by decide⟩
  refine @IsMistaken.host _ "https".toList "host.xml".toList (by decide) (by decide) ?_ xml
  intro c hc
  simpa using List.all_eq_true.1 plain c hc

theorem isMistaken_extension : IsMistaken "file:.xml".toList :=
  @IsMistaken.extension _ "file".toList "xml".toList (by decide) (by decide) (by decide)

end Sample

/-- A host is taken for the name of a file, and so is an extension with a scheme in front of it. -/
theorem namesPlaylist_of_host :
    (namesPlaylist "https://host.xml" = true ∧ Chars.path? "https://host.xml".toList = none ∧
      ¬∃ name, HasFileName "https://host.xml".toList name ∧ IsXmlName name) ∧
    namesPlaylist "file:.xml" = true ∧ Chars.path? "file:.xml".toList = some ".xml".toList ∧
      ¬∃ name, HasFileName "file:.xml".toList name ∧ IsXmlName name := by
  refine ⟨⟨by decide, by decide, fun h => ?_⟩, by decide, by decide, fun h => ?_⟩
  · obtain ⟨name, hname, hxml⟩ := h
    exact Chars.not_isXmlName_of_isMistaken Sample.isMistaken_host hname hxml
  · obtain ⟨name, hname, hxml⟩ := h
    exact Chars.not_isXmlName_of_isMistaken Sample.isMistaken_extension hname hxml

end MasterPackage.Location
