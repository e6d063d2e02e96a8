import MasterPackage.Markup.Document
import MasterPackage.Uuid

/-!
# Composition playlists

Of a composition playlist only its identity is read: the composition's identifier,
its title, and the track files it refers to, each once, in the order in which they
are first referred to.  A reference inside another one does not count.
-/

namespace MasterPackage

/-- A composition: its identifier, its title if it has one, its track files. -/
structure Playlist where
  id : CompositionId
  title : Option String
  trackFiles : List AssetId
  deriving DecidableEq

namespace Playlist

/-- Why a document is no composition playlist. -/
inductive Flaw where
  | noRoot
  | otherRoot (tag : String)
  | noId
  | badId (e : Uuid.Error)
  | badTrackFile (e : Uuid.Error)
  deriving DecidableEq, Repr

/-- The wording of a flaw. -/
def Flaw.message : Flaw → String
  | noRoot => "document has no root element"
  | otherRoot tag => "unexpected root element <" ++ tag ++ ">"
  | noId => "<Id> is missing or empty"
  | badId e => "<Id> " ++ e.message
  | badTrackFile e => "<TrackFileId> " ++ e.message

/-- Why a playlist could not be read. -/
inductive Error where
  | markup (e : Markup.Error)
  | invalid (url : String) (flaw : Flaw)
  deriving DecidableEq, Repr

/-- The wording of an error. -/
def Error.message : Error → String
  | markup e => e.message
  | invalid url flaw => "invalid composition playlist " ++ url ++ ": " ++ flaw.message

/-- What a first reference is noted as. -/
def referenceNote (id : AssetId) : Note := ⟨.trace, "track file referenced", [("asset", id.text)]⟩

/-- Adds a reference, unless it was made before. -/
def refer (found : List AssetId) (id : AssetId) : Attempt Note Flaw (List AssetId) :=
  if id ∈ found then .ok found else ⟨[referenceNote id], .ok (found ++ [id])⟩

/-- The identifier of a reference. -/
def readReference (e : Markup.Element) : Except Flaw AssetId :=
  (AssetId.parse (e.trimmedText?.getD "")).mapError .badTrackFile

mutual

/-- Adds the references of an element: its own, if it is one, and otherwise those of
its children. -/
def collectFrom (found : List AssetId) : Markup.Element → Attempt Note Flaw (List AssetId)
  | e@⟨_, _, children⟩ =>
    if e.isNamed "TrackFileId" then
      (Attempt.ofExcept (readReference e)).bind fun id => refer found id
    else collect found children

/-- Adds the references of elements, in order. -/
def collect (found : List AssetId) : List Markup.Element → Attempt Note Flaw (List AssetId)
  | [] => .ok found
  | e :: es => (collectFrom found e).bind fun found => collect found es

end

/-- The root of a playlist and its identifier. -/
def readRoot (root : Option Markup.Element) : Except Flaw (Markup.Element × CompositionId) :=
  match root with
  | none => .error .noRoot
  | some e =>
    if e.isNamed "CompositionPlaylist" then
      match e.textOf? "Id" with
      | none => .error .noId
      | some text =>
        match CompositionId.parse text with
        | .ok id => .ok (e, id)
        | .error f => .error (.badId f)
    else .error (.otherRoot e.name)

/-- Reads a playlist from the root of its document. -/
def ofRoot (root : Option Markup.Element) : Attempt Note Flaw Playlist :=
  (Attempt.ofExcept (readRoot root)).bind fun (e, id) =>
    (collect [] e.children).bind fun trackFiles => .ok ⟨id, e.textOf? "ContentTitle", trackFiles⟩

/-- Reads a playlist from its bytes. -/
def ofBytes (bytes : List UInt8) (url : String) : Attempt Note Error Playlist :=
  ((Markup.Document.parse url bytes).mapError .markup).bind fun d =>
    (ofRoot d.root).mapError (.invalid url)

end Playlist

end MasterPackage
