import MasterPackage.AssetMap.Registry
import MasterPackage.Playlist

/-!
# Reports

What a command found, as text for a reader or as JSON for a program.  Every report ends
with a line end.
-/

namespace MasterPackage

/-- The two ways to show a report. -/
inductive Format where
  | text
  | json
  deriving DecidableEq, Repr

/-- A package with everything its asset map lists. -/
structure PackageListing where
  playlist : Playlist
  assetMap : String
  assets : List AssetLocator
  /-- Track files that are referred to and not listed. -/
  missing : List AssetId

/-- Where one asset is. -/
structure AssetPlace where
  id : AssetId
  uri : String

/-- What an asset map lists by itself. -/
structure MapCheck where
  assetMap : String
  base : String
  /-- The number of entries. -/
  count : Nat
  assets : List AssetLocator
  /-- Assets that are listed more than once. -/
  duplicates : List AssetId

/-- What a command found. -/
inductive Report where
  | assets (r : PackageListing)
  | locate (r : AssetPlace)
  | check (r : MapCheck)

/-- The line of an asset in a list. -/
def AssetLocator.line (l : AssetLocator) : String := "  " ++ l.id.text ++ "  " ++ l.uri

/-- The playlist as JSON. -/
def Playlist.json (p : Playlist) : Json :=
  .object [("id", p.id.json),
    ("content_title", match p.title with
      | some t => .text t
      | none => .null),
    ("track_files", .list (p.trackFiles.map AssetId.json))]

namespace PackageListing

/-- The lines of the report. -/
def lines (r : PackageListing) : List String :=
  ["CPL " ++ r.playlist.id.text,
    "  Title: " ++ r.playlist.title.getD "(untitled)",
    "  Asset map: " ++ r.assetMap,
    "  Assets: " ++ toString r.assets.length] ++
  r.assets.map AssetLocator.line ++
  (if r.missing = [] then ["✓ Every referenced track file is listed"]
    else r.missing.map fun id => "✗ " ++ id.text ++ " is referenced but not listed")

/-- The report as JSON. -/
def json (r : PackageListing) : Json :=
  .object [("composition", r.playlist.json), ("asset_map", .text r.assetMap),
    ("assets", .list (r.assets.map AssetLocator.json)),
    ("missing", .list (r.missing.map AssetId.json))]

end PackageListing

namespace AssetPlace

/-- The lines of the report. -/
def lines (r : AssetPlace) : List String := [r.uri]

/-- The report as JSON. -/
def json (r : AssetPlace) : Json := .object [("id", r.id.json), ("uri", .text r.uri)]

end AssetPlace

namespace MapCheck

/-- The lines of the report. -/
def lines (r : MapCheck) : List String :=
  ["✓ " ++ r.assetMap ++ " lists " ++ toString r.count ++ " assets", "  Base: " ++ r.base] ++
  r.assets.map AssetLocator.line ++
  r.duplicates.map fun id => "  ! " ++ id.text ++ " appears more than once; first entry wins"

/-- The report as JSON. -/
def json (r : MapCheck) : Json :=
  .object [("asset_map", .text r.assetMap), ("base", .text r.base), ("count", .number r.count),
    ("duplicates", .list (r.duplicates.map AssetId.json)),
    ("assets", .list (r.assets.map AssetLocator.json))]

end MapCheck

namespace Report

/-- The lines of a report. -/
def lines : Report → List String
  | assets r => r.lines
  | locate r => r.lines
  | check r => r.lines

/-- A report as JSON. -/
def json : Report → Json
  | assets r => r.json
  | locate r => r.json
  | check r => r.json

/-- A report as it is printed. -/
def render (format : Format) (r : Report) : String :=
  match format with
  | .text => String.join (r.lines.map (· ++ "\n"))
  | .json => r.json.indented ++ "\n"

end Report

end MasterPackage
