import MasterPackage.Settings
import MasterPackage.Transport.Disk

/-!
# Settings from a file

A file that cannot be read, or that is no text, gives no settings.
-/

namespace MasterPackage.Settings

open Transport

/-- Reads the settings in a file. -/
def load (disk : Disk) (path : String) : Except Error Settings :=
  match disk path with
  | .refused cause => .error (.unreadable path cause)
  | .directory => .error (.unreadable path isADirectory)
  | .file contents =>
    match Text.Utf8.text contents with
    | .ok s => parse (String.ofList s)
    | .error _ => .error (.unreadable path "stream did not contain valid UTF-8")

end MasterPackage.Settings
