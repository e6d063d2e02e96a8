import MasterPackage.CommandLine.Run

/-!
# What the user is told

The help on the commands, the words about arguments that cannot be used, and the way a
failure and the notes of a run are shown.
-/

namespace MasterPackage.CommandLine

/-- What the program is called, and its version. -/
def versionLine : String := "imf 0.1.0"

/-- How the program is called. -/
def usageLine : String := "Usage: imf [OPTIONS] <COMMAND>"

/-- The help on the program. -/
def helpLines : List String :=
  ["Inspect IMF packages: resolve Asset Maps and locate track files",
    "",
    usageLine,
    "",
    "Commands:",
    "  assets <CPL> [--assetmap <ASSETMAP>]       list every asset of a package's Asset Map",
    "  locate <CPL> <ID> [--assetmap <ASSETMAP>]  resolve one asset id to its location",
    "  check <ASSETMAP> [--base <BASE>]           report what an Asset Map lists on its own",
    "",
    "Options:",
    "  -v, --verbose          tell more about what is done",
    "      --format <FORMAT>  text or json, text if not given",
    "      --config <CONFIG>  TOML file with package settings",
    "  -h, --help             print help",
    "  -V, --version          print version"]

namespace Usage

/-- Whether arguments ask for something that is not a command and is not wrong. -/
def isRequest : Usage → Bool
  | help => true
  | version => true
  | _ => false

/-- What is told in place of a command. -/
def lines : Usage → List String
  | help => helpLines
  | nothingGiven => helpLines
  | version => [versionLine]
  | missingCommand => complaint "a command is required"
  | missingWord => complaint "a required argument was not provided"
  | unknownArgument => complaint "unexpected argument found"
  | unknownCommand => complaint "unrecognized subcommand"
  | invalidValue => complaint "invalid or missing value for an option"
  | givenTwice => complaint "an argument cannot be used multiple times"
  | needlessValue => complaint "unexpected value for a flag"
where
  /-- What is wrong with the arguments, and how they should be. -/
  complaint (what : String) : List String := ["error: " ++ what, "", usageLine]

end Usage

/-- A chain of causes below the outermost; several are counted. -/
def causeLines : List String → List String
  | [] => []
  | [cause] => ["", "Caused by:", "    " ++ cause]
  | causes =>
    ["", "Caused by:"] ++
      causes.zipIdx.map fun (cause, n) => "    " ++ toString n ++ ": " ++ cause

/-- A failure as it is shown. -/
def Failure.lines (f : Failure) : List String :=
  match f.chain with
  | [] => ["Error"]
  | outermost :: causes => ("Error: " ++ outermost) :: causeLines causes

/-- The threshold for the notes of a run. -/
def Invocation.threshold (i : Invocation) : Level := if i.verbose then .debug else .warn

/-- The notes of a run that are shown. -/
def noteLines (i : Invocation) (journal : List Transport.Entry) : List String :=
  (Note.upTo i.threshold (Transport.Entry.notes journal)).map Note.line

end MasterPackage.CommandLine
