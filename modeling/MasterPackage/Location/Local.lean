import MasterPackage.Location.Scheme

/-!
# Local locations

A location without a scheme is a path on this machine.  So is a URL with the scheme
`file`, if it names no host or this one.  Every other location is out of reach.  The
text of the path is never changed: it is an end of the location.
-/

namespace MasterPackage.Location

/-- This machine, as the host of a URL. -/
def localHost : List Char := ['l', 'o', 'c', 'a', 'l', 'h', 'o', 's', 't']

/-- The scheme of files. -/
def fileScheme : List Char := ['f', 'i', 'l', 'e']

namespace Chars

/-- The path of a location on this machine; for any other location, what about it is
not supported: its scheme, or the scheme with the foreign host. -/
def machinePath (u : List Char) : Except (List Char) (List Char) :=
  match scheme? u with
  | none => .ok u
  | some s =>
    if Text.sameFolded s fileScheme then
      match u.drop (s.length + 1) with
      | '/' :: '/' :: rest =>
        let host := rest.takeWhile (· != '/')
        if host = [] ∨ Text.sameFolded host localHost = true then .ok (rest.drop host.length)
        else .error (fileScheme ++ ':' :: '/' :: '/' :: host)
      | rest => .ok rest
    else .error s

end Chars

/-- The path of a location on this machine, or what about it is not supported. -/
def machinePath (u : String) : Except String String :=
  match Chars.machinePath u.toList with
  | .ok p => .ok (String.ofList p)
  | .error s => .error (String.ofList s)

end MasterPackage.Location
