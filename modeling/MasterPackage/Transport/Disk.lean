import MasterPackage.Location.Local
import MasterPackage.Transport.StopRule
import MasterPackage.Transport.Load

/-!
# Files as a host

The streams of this host are the files of a machine, looked up by path.  A directory
can be opened like a file, but not read.  The end of a file is seen by reading past
it.
-/

namespace MasterPackage.Transport

/-- What a machine answers to a path. -/
inductive PathAnswer where
  | file (contents : List UInt8)
  | directory
  | refused (cause : String)
  deriving DecidableEq, Repr

namespace PathAnswer

/-- Nothing stands at the path. -/
def notFound : PathAnswer := .refused "No such file or directory (os error 2)"

/-- The path runs through a file. -/
def notADirectory : PathAnswer := .refused "Not a directory (os error 20)"

/-- The path holds a zero character, which no path can. -/
def notAPath : PathAnswer := .refused "file name contained an unexpected NUL byte"

end PathAnswer

/-- The files of a machine. -/
abbrev Disk := String → PathAnswer

/-- The machine's words about reading a directory. -/
def isADirectory : String := "Is a directory (os error 21)"

/-- A file that was opened: its contents, or none for a directory, the number of bytes
read, and whether a read found no more. -/
structure OpenFile where
  contents : Option (List UInt8)
  position : Nat
  sawEnd : Bool
  deriving DecidableEq, Repr

namespace OpenFile

/-- Reads at most so many bytes. -/
def read (n : Nat) (f : OpenFile) : Reading × OpenFile :=
  match f.contents with
  | none => (.failed isADirectory, f)
  | some bytes =>
    let chunk := (bytes.drop f.position).take n
    (.bytes chunk,
      { f with position := f.position + chunk.length,
               sawEnd := f.sawEnd || (chunk.isEmpty && n != 0) })

/-- The size on disk; a directory takes one block. -/
def size (f : OpenFile) : Nat :=
  match f.contents with
  | none => 4096
  | some bytes => bytes.length

/-- A file never asks to be read again. -/
theorem read_ne_again (n : Nat) (f : OpenFile) : (f.read n).1 ≠ .again := by
  cases h : f.contents <;> simp [read, h]

end OpenFile

namespace Disk

/-- What the opening of a file is noted as. -/
def openingNote (url : String) (options : Options) : Note :=
  ⟨.debug, "opening file stream", [("url", url), ("options", toString options.size)]⟩

/-- Opens a local location.  The caller is asked first whether to stop. -/
def openFile (d : Disk) (stop : StopRule) (url : String) (options : Options) :
    Action Signals LoadError OpenFile := fun w =>
  let (stopped, w) := stop.poll w
  if stopped then ⟨⟨[.poll true], .error (.interrupted url)⟩, w⟩
  else
    match Location.machinePath url with
    | .error scheme => ⟨⟨[.poll false], .error (.unsupported url scheme)⟩, w⟩
    | .ok path =>
      let result :=
        match d path with
        | .file contents => .ok ⟨some contents, 0, false⟩
        | .directory => .ok ⟨none, 0, false⟩
        | .refused cause => .error (LoadError.notOpened url cause)
      ⟨⟨[.poll false, .note (openingNote url options)], result⟩, w⟩

theorem isIncidental_of_mem_openFile {d : Disk} {stop : StopRule} {url : String}
    {options : Options} {w : Signals} {e : Entry}
    (h : e ∈ (d.openFile stop url options w).attempt.record) : e.isIncidental = true := by
  rcases hp : stop.poll w with ⟨stopped, w₁⟩
  simp only [openFile, hp] at h
  split at h
  · obtain rfl := List.mem_singleton.1 h
    rfl
  · split at h
    · obtain rfl := List.mem_singleton.1 h
      rfl
    · rcases List.mem_cons.1 h with rfl | h
      · rfl
      · obtain rfl := List.mem_singleton.1 h
        rfl

/-- The host of a machine's files. -/
def host (d : Disk) (stop : StopRule) : Host Signals OpenFile where
  openStream := d.openFile stop
  read n f w :=
    let (reading, f) := f.read n
    (reading, f, w)
  size? f := some f.size
  atEnd := OpenFile.sawEnd
  poll := stop.poll
  grants held requested := held + requested < 0x800000000000
  room _ := true
  patience _ _ := 0
  incidental _ _ _ _ := isIncidental_of_mem_openFile
  patience_lt n f _ _ h := absurd h (f.read_ne_again n)

end Disk

end MasterPackage.Transport
