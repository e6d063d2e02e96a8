import MasterPackage.AssetMap.Error
import MasterPackage.AssetMap.Registry
import MasterPackage.Location.Directory
import MasterPackage.Markup.Document

/-!
# Reading an asset map

An asset map's root holds a list of assets, and every asset has an identifier and a
list of chunks, the first of which has a path.  Each asset gives one entry, with the
path resolved against the map's directory; other elements are passed over.  The first
asset with something wrong, and in it the first thing wrong in the order identifier,
chunk list, chunk, path, is the error.
-/

namespace MasterPackage.AssetMap

/-- What an asset map is read for: where the document is, the directory its paths are
resolved against, the composition it is wanted for, and whether a registry of so many
entries can grow. -/
structure Context where
  document : String
  baseDir : String
  composition : Option CompositionId
  room : Nat → Bool

namespace Context

/-- A context in which the registry can always grow. -/
def roomy (document baseDir : String) (composition : Option CompositionId) : Context :=
  ⟨document, baseDir, composition, fun _ => true⟩

/-- A structural error in this context. -/
def lacks (ctx : Context) (element : String) (lack : Lack) (asset : Option AssetId) : Error :=
  .schema ⟨ctx.document, element, lack, asset, ctx.composition⟩

end Context

/-- What an element to be passed over is noted as. -/
def skippedNote (e : Markup.Element) : Note :=
  ⟨.trace, "skipping non-asset element", [("element", e.name)]⟩

/-- What an asset with more than one chunk is noted as. -/
def severalChunksNote (id : AssetId) : Note :=
  ⟨.debug, "asset has several chunks; using the first", [("asset", id.text)]⟩

/-- What an asset is noted as. -/
def foundNote (l : AssetLocator) : Note :=
  ⟨.debug, "found asset", [("asset", l.id.text), ("uri", l.uri)]⟩

/-- What an asset that is listed already is noted as. -/
def duplicateNote (document : String) (id : AssetId) : Note :=
  ⟨.warn, "duplicate asset id; keeping first location for lookups",
    [("asset", id.text), ("document", document)]⟩

/-- The identifier of an asset. -/
def readId (ctx : Context) (asset : Markup.Element) : Except Error AssetId :=
  match asset.textOf? "Id" with
  | none => .error (ctx.lacks "Id" .missingOrEmpty none)
  | some text => (AssetId.parse text).mapError fun e => ctx.lacks "Id" (.badId e) none

/-- The chunks of an asset: the first one, and whether there are others. -/
def readChunk (ctx : Context) (asset : Markup.Element) (id : AssetId) :
    Except Error (Markup.Element × Bool) :=
  match asset.child? "ChunkList" with
  | none => .error (ctx.lacks "ChunkList" .missing (some id))
  | some list =>
    match list.childrenNamed "Chunk" with
    | [] => .error (ctx.lacks "Chunk" .missing (some id))
    | chunk :: others => .ok (chunk, !others.isEmpty)

/-- The place of an asset, from the path of its chunk. -/
def readPlace (ctx : Context) (chunk : Markup.Element) (id : AssetId) : Except Error AssetLocator :=
  match chunk.textOf? "Path" with
  | none => .error (ctx.lacks "Path" .missingOrEmpty (some id))
  | some path =>
    (AssetLocator.of? id (Location.resolve ctx.baseDir path)).mapError fun e =>
      ctx.lacks "Path" (.nowhere e) (some id)

/-- Reads one asset. -/
def readAsset (ctx : Context) (asset : Markup.Element) : Attempt Note Error AssetLocator := do
  let id ← Attempt.ofExcept (readId ctx asset)
  let (chunk, several) ← Attempt.ofExcept (readChunk ctx asset id)
  if several then Attempt.note (severalChunksNote id)
  Attempt.ofExcept (readPlace ctx chunk id)

/-- Adds one asset's locator to the registry. -/
def enter (ctx : Context) (r : Registry) (l : AssetLocator) : Attempt Note Error Registry := do
  Attempt.note (foundNote l)
  if r.contains l.id then Attempt.note (duplicateNote ctx.document l.id)
  if ctx.room r.size then pure (r.push l) else Attempt.fail (.full r.size)

/-- Adds the assets among elements to the registry, in order. -/
def readAssets (ctx : Context) (r : Registry) : List Markup.Element → Attempt Note Error Registry
  | [] => .ok r
  | e :: es =>
    if e.isNamed "Asset" then
      (readAsset ctx e).bind fun l => (enter ctx r l).bind fun r => readAssets ctx r es
    else
      (Attempt.note (skippedNote e)).bind fun _ => readAssets ctx r es

/-- The list of assets under the root of a document. -/
def assetList (ctx : Context) (root : Option Markup.Element) : Except Error Markup.Element :=
  match root with
  | none => .error (ctx.lacks "AssetMap" .noRoot none)
  | some e =>
    if e.isNamed "AssetMap" then
      match e.child? "AssetList" with
      | none => .error (ctx.lacks "AssetList" .missing none)
      | some list => .ok list
    else .error (ctx.lacks "AssetMap" (.otherRoot e.name) none)

/-- Reads an asset map from the root of its document. -/
def ofRoot (ctx : Context) (root : Option Markup.Element) : Attempt Note Error Registry :=
  (Attempt.ofExcept (assetList ctx root)).bind fun list => readAssets ctx .empty list.children

/-- Reads an asset map from its bytes. -/
def ofBytes (ctx : Context) (bytes : List UInt8) : Attempt Note Error Registry :=
  ((Markup.Document.parse ctx.document bytes).mapError .markup).bind fun d => ofRoot ctx d.root

end MasterPackage.AssetMap
