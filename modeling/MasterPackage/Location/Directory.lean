import MasterPackage.Location.Path

/-!
# The directory and the name of a file

A location is cut at its last separator: before it stands the directory, after it
the file's name.  The query and the fragment of a URL belong to neither, and a
directory that is a root keeps its separator.
-/

namespace MasterPackage.Location

/-- The characters that end the path of a URL. -/
def endsUrlPath (c : Char) : Bool := c == '?' || c == '#'

namespace Chars

/-- A location without the query and fragment of a URL. -/
def withoutQuery (u : List Char) : List Char :=
  if (scheme? u).isSome then u.takeWhile fun c => !endsUrlPath c else u

/-- The text before and after the last separator, with that separator. -/
def cutLast? : List Char → Option (List Char × Char × List Char)
  | [] => none
  | c :: p =>
    match cutLast? p with
    | some (before, sep, after) => some (c :: before, sep, after)
    | none => if isSeparator c then some ([], c, p) else none

/-- Whether the text behind a scheme and its colon begins an authority. -/
def startsAuthority (p : List Char) : Bool := ['/', '/'].isPrefixOf p

/-- Whether the last separator of a location belongs to the two in front of a URL's
authority; `before` is what stands before that separator. -/
def endsInAuthority (path before : List Char) : Bool :=
  match scheme? path with
  | some s => startsAuthority (path.drop (s.length + 1)) && before.length < s.length + 3
  | none => false

/-- Whether the last separator of a location makes a root of what stands before it: of
nothing, of a drive, of a scheme, or of a scheme with an empty authority. -/
def endsAtRoot (path before : List Char) : Bool :=
  before.isEmpty || isDriveName before ||
    match scheme? path with
    | some s =>
      before.length == s.length + 1 ||
        (startsAuthority (path.drop (s.length + 1)) && before.length == s.length + 3)
    | none => false

/-- The directory of a location.  A name alone lies in the current directory, and a
URL that ends with its authority is its own directory. -/
def directory (u : List Char) : List Char :=
  let path := withoutQuery u
  match cutLast? path with
  | none => ['.']
  | some (before, sep, _) =>
    if endsInAuthority path before then path
    else if endsAtRoot path before then before ++ [sep]
    else before

/-- The text after the last separator of a location. -/
def fileName (u : List Char) : List Char :=
  let path := withoutQuery u
  match cutLast? path with
  | none => path
  | some (_, _, after) => after

/-- The text before and after the last point of a name. -/
def cutExtension? : List Char → Option (List Char × List Char)
  | [] => none
  | c :: n =>
    match cutExtension? n with
    | some (stem, ext) => some (c :: stem, ext)
    | none => if c = '.' then some ([], n) else none

/-- Whether a location names a file that could be a composition playlist: one with
the extension of XML, in any letter case, and something before it. -/
def namesPlaylist (u : List Char) : Bool :=
  match cutExtension? (fileName u) with
  | some (stem, ext) => !stem.isEmpty && Text.sameFolded ext ['x', 'm', 'l']
  | none => false

theorem eq_of_cutLast? {p before after : List Char} {sep : Char}
    (h : cutLast? p = some (before, sep, after)) : p = before ++ sep :: after := by
  induction p generalizing before with
  | nil => simp [cutLast?] at h
  | cons c p ih =>
    simp only [cutLast?] at h
    split at h
    · next b s a hp =>
      simp only [Option.some.injEq, Prod.mk.injEq] at h
      obtain ⟨rfl, rfl, rfl⟩ := h
      rw [ih hp]
      rfl
    · split at h
      · simp only [Option.some.injEq, Prod.mk.injEq] at h
        obtain ⟨rfl, rfl, rfl⟩ := h
        rfl
      · simp at h

theorem cutLast?_eq_none_iff {p : List Char} :
    cutLast? p = none ↔ ∀ c ∈ p, isSeparator c = false := by
  induction p with
  | nil => simp [cutLast?]
  | cons c p ih =>
    simp only [cutLast?, List.mem_cons, forall_eq_or_imp]
    cases hp : cutLast? p with
    | none => rw [hp] at ih; simpa using fun h => (ih.1 rfl)
    | some x =>
      rw [hp] at ih
      obtain ⟨b, s, a⟩ := x
      simp only [reduceCtorEq, false_iff] at ih ⊢
      exact fun h => ih h.2

theorem cutLast?_append {before after : List Char} {sep : Char} (hs : isSeparator sep = true)
    (h : ∀ c ∈ after, isSeparator c = false) :
    cutLast? (before ++ sep :: after) = some (before, sep, after) := by
  induction before with
  | nil => simp [cutLast?, cutLast?_eq_none_iff.2 h, hs]
  | cons c before ih => simp [cutLast?, ih]

theorem after_of_cutLast? {p before after : List Char} {sep : Char}
    (h : cutLast? p = some (before, sep, after)) :
    isSeparator sep = true ∧ ∀ c ∈ after, isSeparator c = false := by
  induction p generalizing before with
  | nil => simp [cutLast?] at h
  | cons c p ih =>
    simp only [cutLast?] at h
    split at h
    · next hp =>
      simp only [Option.some.injEq, Prod.mk.injEq] at h
      obtain ⟨_, rfl, rfl⟩ := h
      exact ih hp
    · next hp =>
      split at h
      · next hc =>
        simp only [Option.some.injEq, Prod.mk.injEq] at h
        obtain ⟨_, rfl, rfl⟩ := h
        exact ⟨hc, cutLast?_eq_none_iff.1 hp⟩
      · simp at h

theorem cutLast?_eq_some_iff {p before after : List Char} {sep : Char} :
    cutLast? p = some (before, sep, after) ↔
      p = before ++ sep :: after ∧ isSeparator sep = true ∧ ∀ c ∈ after, isSeparator c = false :=
  ⟨fun h => ⟨eq_of_cutLast? h, after_of_cutLast? h⟩, fun ⟨hp, hs, h⟩ => hp ▸ cutLast?_append hs h⟩

end Chars

/-- The directory of a location. -/
def directory (u : String) : String := String.ofList (Chars.directory u.toList)

/-- Whether a location could name a composition playlist. -/
def namesPlaylist (u : String) : Bool := Chars.namesPlaylist u.toList

end MasterPackage.Location
