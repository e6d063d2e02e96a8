import MasterPackage.Transport.Disk

/-!
# Trees of files

A tree of files is given by the relative paths of its files; the directories are those
that the paths run through, and the tree stands where the program works.  A path is
followed segment by segment.  From the root only the null device and the directories
it lies in are known.
-/

namespace MasterPackage.Transport

/-- The files of a directory and all below it, by their relative paths. -/
structure FileTree where
  files : List (List String × List UInt8)

namespace FileTree

/-- The segments of a path. -/
def segments (path : List Char) : List String := (path.splitOn '/').map String.ofList

/-- A tree of files at relative paths. -/
def ofFiles (files : List (String × List UInt8)) : FileTree :=
  ⟨files.map fun (path, contents) => (segments path.toList, contents)⟩

/-- What stands at a place of the tree. -/
def lookup (t : FileTree) (place : List String) : PathAnswer :=
  match t.files.lookup place with
  | some contents => .file contents
  | none =>
    if place = [] ∨ t.files.any (fun f => place.isPrefixOf f.1) then .directory else .notFound

/-- Follows segments from a place of the tree; `above` counts the directories gone up
beyond its root. -/
def follow (t : FileTree) (above : Nat) (place : List String) : List String → PathAnswer
  | [] => if above = 0 then t.lookup place else .directory
  | segment :: rest =>
    if above = 0 then
      match t.lookup place with
      | .directory =>
        if segment = "" ∨ segment = "." then t.follow 0 place rest
        else if segment = ".." then
          if place = [] then t.follow 1 [] rest else t.follow 0 place.dropLast rest
        else t.follow 0 (place ++ [segment]) rest
      | .file _ => .notADirectory
      | .refused cause => .refused cause
    else if segment = "" ∨ segment = "." then t.follow above place rest
    else if segment = ".." then t.follow (above + 1) place rest
    else .notFound

/-- The devices of a machine. -/
def devices : FileTree := ⟨[(["dev", "null"], [])]⟩

/-- Follows segments from the root of the machine, which is its own parent. -/
def followRoot (place : List String) : List String → PathAnswer
  | [] => devices.lookup place
  | segment :: rest =>
    match devices.lookup place with
    | .directory =>
      if segment = "" ∨ segment = "." then followRoot place rest
      else if segment = ".." then followRoot place.dropLast rest
      else followRoot (place ++ [segment]) rest
    | .file _ => .notADirectory
    | .refused cause => .refused cause

/-- The answers of a machine that works in the tree. -/
def disk (t : FileTree) : Disk := fun path =>
  match path.toList with
  | [] => .notFound
  | cs =>
    if cs.contains (Char.ofNat 0) then .notAPath
    else
      match cs with
      | '/' :: rest => followRoot [] (segments rest)
      | _ => t.follow 0 [] (segments cs)

end FileTree

end MasterPackage.Transport
