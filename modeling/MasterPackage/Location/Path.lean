import MasterPackage.Location.Scheme

/-!
# Joining locations

Chunk paths are resolved by their text alone: nothing is looked up, and `..`
segments stay as they are.  An absolute path stands for itself, and any other is put
behind the directory with a separator between.
-/

namespace MasterPackage.Location

/-- The two characters that separate segments. -/
def isSeparator (c : Char) : Bool := c == '/' || c == '\\'

namespace Chars

/-- A drive letter with its colon and a separator, then anything. -/
def onDrive : List Char → Bool
  | c :: d :: e :: _ => c.isAlpha && d == ':' && isSeparator e
  | _ => false

/-- A drive letter with its colon, and nothing else. -/
def isDriveName : List Char → Bool
  | [c, d] => c.isAlpha && d == ':'
  | _ => false

/-- Whether a location begins with a separator. -/
def startsAtRoot : List Char → Bool
  | c :: _ => isSeparator c
  | [] => false

/-- A path from the root, a path on a drive, or a URL. -/
def isAbsolute (p : List Char) : Bool := startsAtRoot p || onDrive p || (scheme? p).isSome

/-- The separator to put behind a directory: a path written with backslashes only
goes on with one. -/
def joiner (base : List Char) : Char :=
  if (scheme? base).isNone && base.contains '\\' && !base.contains '/' then '\\' else '/'

/-- A path without the segments at its front that name the directory itself. -/
def dropHere : List Char → List Char
  | '.' :: c :: p => if isSeparator c then dropHere p else '.' :: c :: p
  | p => p

/-- A location without the separators at its end. -/
def trimSeparators (p : List Char) : List Char := (p.reverse.dropWhile isSeparator).reverse

/-- Whether a directory is a scheme and the slashes of an empty authority and root,
with nothing after them; `trimmed` is the directory without its last separators. -/
def isRootUrl (base trimmed : List Char) : Bool :=
  match scheme? base with
  | some s => trimmed.length == s.length + 1 && ['/', '/'].isPrefixOf (base.drop trimmed.length)
  | none => false

/-- The location of a path that was written down in a directory; an empty directory
is the current one. -/
def resolve (base path : List Char) : List Char :=
  if isAbsolute path then path
  else
    let base := if base = [] then ['.'] else base
    let sep := joiner base
    let rel := dropHere path
    let trimmed := trimSeparators base
    if trimmed = [] then sep :: rel
    else if isRootUrl base trimmed then base ++ rel
    else trimmed ++ sep :: rel

theorem resolve_of_isAbsolute {base path : List Char} (h : isAbsolute path = true) :
    resolve base path = path := by simp [resolve, h]

/-- A path that says something is resolved to a place. -/
theorem resolve_ne_nil (base : List Char) {path : List Char} (h : path ≠ []) :
    resolve base path ≠ [] := by
  by_cases habsolute : isAbsolute path = true
  · rw [resolve_of_isAbsolute habsolute]
    exact h
  · rw [resolve, if_neg habsolute]
    simp only
    generalize (if base = [] then ['.'] else base) = base
    split
    · exact List.cons_ne_nil _ _
    split
    · next hroot =>
      intro hnil
      have hbase := (List.append_eq_nil_iff.1 hnil).1
      rw [hbase] at hroot
      exact absurd hroot (by simp [isRootUrl, scheme?])
    · simp

end Chars

/-- Whether a location stands for itself, wherever it was written down. -/
def isAbsolute (p : String) : Bool := Chars.isAbsolute p.toList

/-- The location of a path that was written down in a directory. -/
def resolve (base path : String) : String := String.ofList (Chars.resolve base.toList path.toList)

end MasterPackage.Location
