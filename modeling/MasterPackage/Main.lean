import MasterPackage.CommandLine.Help

/-!
# The program

Reads the arguments, reads the files that the command is going to look at, runs the
command on them and shows what came of it.
-/

namespace MasterPackage.CommandLine

open Transport

/-- What this machine answers to a path. -/
def answerOf (path : String) : IO PathAnswer := do
  try
    let contents ← IO.FS.readBinFile path
    pure (.file contents.toList)
  catch
    | .noFileOrDirectory .. => pure .notFound
    | .inappropriateType none .. => pure .directory
    | .inappropriateType (some _) .. => pure .notADirectory
    | .permissionDenied .. => pure (.refused "Permission denied (os error 13)")
    | .invalidArgument .. => pure .notAPath
    | e => pure (.refused (toString e))

/-- The machine of the answers it gave so far. -/
def diskOf (answers : List (String × PathAnswer)) : Disk := fun path =>
  (answers.lookup path).getD .notFound

/-- Asks the machine for what a command looks at, until nothing more is looked at. -/
def gather (i : Invocation) (answers : List (String × PathAnswer)) :
    Nat → IO (List (String × PathAnswer))
  | 0 => pure answers
  | rounds + 1 => do
    let looked := paths i (run (diskOf answers) i).record
    match looked.find? fun path => (answers.lookup path).isNone with
    | none => pure answers
    | some path => gather i (answers ++ [(path, ← answerOf path)]) rounds

/-- A command looks at its settings, a playlist and an asset map, and at nothing else. -/
def filesOfCommand : Nat := 3

/-- Prints lines to a stream. -/
def printLines (out : IO.FS.Stream) (lines : List String) : IO Unit :=
  lines.forM out.putStrLn

/-- Runs the program and gives its exit code. -/
def runProgram (args : List String) : IO UInt32 := do
  match readArguments args with
  | .error u =>
    if u.isRequest then
      printLines (← IO.getStdout) u.lines
      pure 0
    else
      printLines (← IO.getStderr) u.lines
      pure 2
  | .ok i =>
    let x := run (diskOf (← gather i [] filesOfCommand)) i
    printLines (← IO.getStderr) (noteLines i x.record)
    match x.result with
    | .ok report =>
      (← IO.getStdout).putStr report
      pure 0
    | .error f =>
      printLines (← IO.getStderr) f.lines
      pure 1

end MasterPackage.CommandLine

def main (args : List String) : IO UInt32 := MasterPackage.CommandLine.runProgram args
