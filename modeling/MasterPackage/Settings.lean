import MasterPackage.Location.Directory
import MasterPackage.Toml.Document
import MasterPackage.Transport.Load

/-!
# Settings

What the user may choose: another asset map than the one beside the playlist, options
for every stream, and limits for every document.  Settings are written in TOML, each
under its own key, and a key that is left out keeps its default.
-/

namespace MasterPackage

open Transport

/-- The user's choices. -/
structure Settings where
  assetMap : Option String
  streamOptions : Options
  maxDocumentSize : UInt64
  sizeHint : UInt64
  deriving DecidableEq, Repr

namespace Settings

/-- The name of an asset map's file. -/
def assetMapName : String := "ASSETMAP.xml"

/-- What holds if nothing is chosen. -/
def default : Settings := ⟨none, .empty, Limits.default.maxSize, Limits.default.sizeHint⟩

/-- Where the asset map for a playlist is found. -/
def mapUrl (s : Settings) (playlistUrl : String) : String :=
  match s.assetMap with
  | some url => url
  | none => Location.resolve (Location.directory playlistUrl) assetMapName

/-- The limits for loading a document. -/
def limits (s : Settings) : Limits := ⟨s.sizeHint, s.maxDocumentSize⟩

/-! ## TOML -/

/-- A text under a key that may be left out. -/
def textOf? : Option Toml.Value → Option (Option String)
  | none => some none
  | some (.text s) => some (some s)
  | some _ => none

/-- A count under a key that may be left out. -/
def countOf? (fallback : UInt64) : Option Toml.Value → Option UInt64
  | none => some fallback
  | some (.integer n) => if 0 ≤ n then some (UInt64.ofNat n.toNat) else none
  | some _ => none

/-- The name under which a moment holds its text when a table is wanted. -/
def momentKey : String := "$__toml_private_datetime"

/-- An option, if its value is a text. -/
def optionOf? (name : String) : Toml.Value → Option (String × String)
  | .text s => some (name, s)
  | _ => none

/-- Options under a key that may be left out: a table of texts.  A moment counts as a
table with its text under a reserved name. -/
def optionsOf? : Option Toml.Value → Option Options
  | none => some .empty
  | some (.table _ members) =>
    (members.mapM fun (name, v) => optionOf? name v).map Options.ofList
  | some (.moment s) => some (.ofList [(momentKey, s)])
  | some _ => none

/-- Settings from the members of a TOML document. -/
def ofMembers? (ms : Toml.Members) : Option Settings := do
  let assetMap ← textOf? (ms.get? "asset_map")
  let streamOptions ← optionsOf? (ms.get? "stream_options")
  let maxDocumentSize ← countOf? default.maxDocumentSize (ms.get? "max_document_size")
  let sizeHint ← countOf? default.sizeHint (ms.get? "default_size_hint")
  pure ⟨assetMap, streamOptions, maxDocumentSize, sizeHint⟩

/-- Settings from a text in TOML. -/
def ofToml? (text : String) : Option Settings := (Toml.parse? text).bind ofMembers?

/-- Why settings could not be had. -/
inductive Error where
  /-- The file could not be read; the cause is the host's own words. -/
  | unreadable (path cause : String)
  /-- The text is no TOML, or a key has a value of another kind. -/
  | invalid
  deriving DecidableEq, Repr

/-- The wording of an error. -/
def Error.message : Error → String
  | unreadable path cause => "cannot read config " ++ path ++ ": " ++ cause
  | invalid => "invalid config"

/-- Settings from a text in TOML, or the error. -/
def parse (text : String) : Except Error Settings :=
  match ofToml? text with
  | some s => .ok s
  | none => .error .invalid

end Settings

end MasterPackage
