import MasterPackage.AssetMap.AtUrl
import MasterPackage.AssetMap.Lookup
import MasterPackage.Package.Error
import MasterPackage.Text.Quoted

/-!
# Packages

A package is opened once: its playlist is loaded and read, then the asset map that
belongs to it.  If both succeed the package is ready and holds what was read, until it
is closed or taken apart; if either fails it has failed and holds nothing.  What it holds
stands in three fields, each of which is filled and emptied by itself.
-/

namespace MasterPackage

open Transport

/-- How playlists are read, and what is known about one that was. -/
structure PlaylistReader (κ : Type) where
  read : List UInt8 → String → Attempt Note Package.Error κ
  id : κ → CompositionId
  /-- The track files a playlist refers to, in the order of first reference. -/
  referenced : κ → List AssetId

/-- Reads of a playlist what identifies it. -/
def PlaylistReader.identity : PlaylistReader Playlist where
  read bytes url := (Playlist.ofBytes bytes url).mapError Package.Error.ofPlaylist
  id := Playlist.id
  referenced := Playlist.trackFiles

/-- Reads the same, and keeps nothing but the identifier. -/
def PlaylistReader.bare : PlaylistReader CompositionId where
  read bytes url :=
    ((Playlist.ofBytes bytes url).mapError Package.Error.ofPlaylist).bind fun p => .ok p.id
  id := fun id => id
  referenced _ := []

/-- What the two documents of a package come to. -/
structure Package.Contents (κ : Type) where
  playlist : κ
  registry : AssetMap.Registry
  mapUrl : String

/-- A package: the user's choices, where it stands in its life, and what it holds: the
playlist, the registry, and where the asset map was found. -/
structure Package (κ : Type) where
  settings : Settings
  state : Package.State
  playlist? : Option κ
  registry? : Option AssetMap.Registry
  mapUrl? : Option String

namespace Package

variable {ω σ κ : Type}

/-- A package that was not opened yet. -/
def unopened (settings : Settings) : Package κ := ⟨settings, .unopened, none, none, none⟩

/-- A request that the package's state does not allow. -/
def refuse {α : Type} (p : Package κ) (request : Request) : Except Error α :=
  .error (.wrongState request p.state)

/-! ## Opening -/

/-- Loads the playlist at a location and reads it. -/
def openPlaylist (h : Host ω σ) (reader : PlaylistReader κ) (settings : Settings) (url : String)
    (supplied : Option σ) : Action ω Error κ := do
  Action.note ⟨.debug, "loading CPL", [("url", url)]⟩
  let bytes ← (h.load settings.limits settings.streamOptions url supplied).mapError .load
  let playlist ← Action.ofNoted (reader.read bytes url)
  Action.note ⟨.info, "parsed IMF CPL", [("cpl", (reader.id playlist).text), ("url", url)]⟩
  pure playlist

/-- Loads the asset map of a playlist that was read, and reads it. -/
def openAssetMap (h : Host ω σ) (reader : PlaylistReader κ) (settings : Settings) (url : String)
    (playlist : κ) : Action ω Error (Contents κ) := do
  let id := reader.id playlist
  let mapUrl := settings.mapUrl url
  Action.note ⟨.debug, "loading asset map", [("cpl", id.text), ("url", mapUrl)]⟩
  let registry ←
    (AssetMap.atUrl h settings.limits settings.streamOptions mapUrl none (some id)).mapError
      .assetMap
  pure ⟨playlist, registry, mapUrl⟩

/-- Loads and reads both documents; an error tells which of them was being read. -/
def openDocuments (h : Host ω σ) (reader : PlaylistReader κ) (settings : Settings) (url : String)
    (supplied : Option σ) : Action ω (State × Error) (Contents κ) := do
  let playlist ←
    (openPlaylist h reader settings url supplied).mapError fun e => (.parsingPlaylist, e)
  (openAssetMap h reader settings url playlist).mapError fun e => (.parsingAssetMap, e)

/-- What a package that became ready is noted as. -/
def readyNote (reader : PlaylistReader κ) (c : Contents κ) : Note :=
  ⟨.info, "IMF package ready",
    [("cpl", (reader.id c.playlist).text), ("assets", toString c.registry.size),
      ("asset_map", c.mapUrl)]⟩

/-- What a package that failed is noted as. -/
def failedNote (url : String) (stage : State) (e : Error) : Note :=
  ⟨.warn, "IMF package open failed",
    [("url", url), ("state", stage.text), ("error", e.message)]⟩

/-- What opening a package comes to: the outcome, and the package after it. -/
structure Opening (ω κ : Type) where
  outcome : Outcome ω Error Unit
  package : Package κ

/-- Opens the package whose playlist is at a location, read from the stream that was
supplied or else from one that is opened.  Only a package that was never opened can be. -/
def openAt (p : Package κ) (h : Host ω σ) (reader : PlaylistReader κ) (url : String)
    (supplied : Option σ) (w : ω) : Opening ω κ :=
  if p.state = .unopened then
    let y := openDocuments h reader p.settings url supplied w
    match y.attempt.result with
    | .ok c =>
      ⟨⟨⟨y.attempt.record ++ [.note (readyNote reader c)], .ok ()⟩, y.world⟩,
        { p with
          state := .ready, playlist? := some c.playlist, registry? := some c.registry,
          mapUrl? := some c.mapUrl }⟩
    | .error (stage, e) =>
      ⟨⟨⟨y.attempt.record ++ [.note (failedNote url stage e)], .error e⟩, y.world⟩,
        { p with state := .failed }⟩
  else ⟨⟨.ofExcept (p.refuse .openDocuments), w⟩, p⟩

/-! ## Questions -/

/-- The track files that the playlist refers to and the asset map does not list. -/
def unlistedAssets (p : Package κ) (reader : PlaylistReader κ) : Except Error (List AssetId) :=
  match p.playlist?, p.registry? with
  | some playlist, some registry =>
    .ok ((reader.referenced playlist).filter fun id => !registry.contains id)
  | _, _ => p.refuse .checkAssets

/-- What a ready package holds, handed over. -/
def takeApart (p : Package κ) : Except Error (κ × AssetMap.Registry) :=
  match p.playlist?, p.registry? with
  | some playlist, some registry =>
    if p.state = .ready then .ok (playlist, registry) else p.refuse .takeApart
  | _, _ => p.refuse .takeApart

/-- The next packet of essence.  None is ever read: a ready package is at its end. -/
def nextPacket (p : Package κ) : Except Error (Option (List UInt8)) :=
  if p.state = .ready then .ok none else p.refuse .nextPacket

/-- Lets go of everything the package holds, in any state and any number of times. -/
def close (p : Package κ) : Package κ :=
  if p.state = .closed then p
  else { p with state := .closed, playlist? := none, registry? := none, mapUrl? := none }

/-- What a close is noted as, unless the package was closed before. -/
def closeNotes (p : Package κ) : List Note :=
  if p.state = .closed then []
  else [⟨.debug, "IMF package closed", [("from", p.state.text)]⟩]

/-- The package for diagnosis. -/
def described (p : Package κ) : String :=
  let some? (s : Option String) : String :=
    match s with
    | some t => "Some(" ++ t ++ ")"
    | none => "None"
  "ImfPackage \x7b state: " ++ p.state.name ++
    ", asset_map_url: " ++ some? (p.mapUrl?.map Text.quoted) ++
    ", assets: " ++ some? (p.registry?.map fun r => toString r.size) ++ " \x7d"

theorem openAt_of_ne_unopened {p : Package κ} (hp : p.state ≠ .unopened) (h : Host ω σ)
    (reader : PlaylistReader κ) (url : String) (supplied : Option σ) (w : ω) :
    p.openAt h reader url supplied w =
      ⟨⟨.ofExcept (p.refuse .openDocuments), w⟩, p⟩ := by simp [openAt, hp]

theorem state_close (p : Package κ) : p.close.state = .closed := by
  rw [close]
  split
  · assumption
  · rfl

end Package

end MasterPackage
