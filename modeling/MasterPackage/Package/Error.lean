import MasterPackage.AssetMap.Error
import MasterPackage.Playlist
import MasterPackage.Settings

/-!
# What can go wrong with a package

Errors of a package are those of its documents, and the one of asking at the wrong
time.  They fall into five kinds; an error is of the same kind whichever document it
concerns.
-/

namespace MasterPackage.Package

/-- The life of a package. -/
inductive State where
  | unopened
  | parsingPlaylist
  | parsingAssetMap
  | ready
  | failed
  | closed
  deriving DecidableEq, Repr

namespace State

/-- A state in a sentence. -/
def text : State → String
  | unopened => "unopened"
  | parsingPlaylist => "parsing the CPL"
  | parsingAssetMap => "parsing the asset map"
  | ready => "ready"
  | failed => "failed"
  | closed => "closed"

/-- The name of a state. -/
def name : State → String
  | unopened => "Unopened"
  | parsingPlaylist => "ParsingCpl"
  | parsingAssetMap => "ParsingAssetMap"
  | ready => "Ready"
  | failed => "Failed"
  | closed => "Closed"

/-- A state in a report. -/
def label : State → String
  | unopened => "unopened"
  | parsingPlaylist => "parsing-cpl"
  | parsingAssetMap => "parsing-asset-map"
  | ready => "ready"
  | failed => "failed"
  | closed => "closed"

end State

/-- What can be asked of a package. -/
inductive Request where
  | openDocuments
  | checkAssets
  | takeApart
  | nextPacket
  deriving DecidableEq, Repr

/-- A request in a sentence. -/
def Request.text : Request → String
  | openDocuments => "open"
  | checkAssets => "check assets of"
  | takeApart => "take apart"
  | nextPacket => "read from"

/-- What went wrong. -/
inductive Error where
  | load (e : Transport.LoadError)
  | markup (e : Markup.Error)
  | assetMap (e : AssetMap.Error)
  | playlist (url : String) (flaw : Playlist.Flaw)
  | wrongState (request : Request) (state : State)
  | settings (e : Settings.Error)
  deriving DecidableEq

/-- The kinds of errors. -/
inductive ErrorKind where
  | io
  | parse
  | schema
  | allocation
  | invalidState
  deriving DecidableEq, Repr

/-- The name of a kind. -/
def ErrorKind.text : ErrorKind → String
  | io => "io"
  | parse => "parse"
  | schema => "schema"
  | allocation => "allocation"
  | invalidState => "invalid-state"

/-- The kind of a load error.  An empty document is a malformed one. -/
def loadKind : Transport.LoadError → ErrorKind
  | .empty _ => .parse
  | .outOfMemory _ _ => .allocation
  | _ => .io

/-- The kind of an asset map's error. -/
def assetMapKind : AssetMap.Error → ErrorKind
  | .load e => loadKind e
  | .markup _ => .parse
  | .schema _ => .schema
  | .notListed _ => .schema
  | .full _ => .allocation

namespace Error

/-- An error of a playlist. -/
def ofPlaylist : Playlist.Error → Error
  | .markup e => markup e
  | .invalid url flaw => playlist url flaw

/-- The wording of an error. -/
def message : Error → String
  | load e => e.message
  | markup e => e.message
  | assetMap e => e.message
  | playlist url flaw => (Playlist.Error.invalid url flaw).message
  | wrongState request state =>
    "cannot " ++ request.text ++ " a package that is " ++ state.text
  | settings e => e.message

/-- The kind of an error. -/
def kind : Error → ErrorKind
  | load e => loadKind e
  | markup _ => .parse
  | assetMap e => assetMapKind e
  | playlist _ _ => .schema
  | wrongState _ _ => .invalidState
  | settings (.unreadable _ _) => .io
  | settings .invalid => .parse

end Error

end MasterPackage.Package
