import MasterPackage.AssetLocator
import MasterPackage.Location.Path
import MasterPackage.Proofs.Markup.Source
import MasterPackage.Proofs.Uuid

/-!
# Asset maps as they are written

A written asset map lists assets, each with an identifier in one of its spellings and a
path with something other than blanks in it.  It means a tree (`Sheet.element`), and any
document that means this tree is a written form of it.  The plain ones among them are
those with bare tags, in which every text is cut into pieces, escaped or not, as one likes
(`rendering`).
-/

namespace MasterPackage.AssetMap

open Markup

/-! ## Written assets -/

/-- An asset as it is written: its identifier in one of its spellings, and the path of
its chunk, which is not blank.  Text between the elements inside it says nothing. -/
structure Row where
  id : AssetId
  spelling : Uuid.Spelling id.uuid
  path : String
  path_ne_nil : Text.trim path.toList ≠ []
  inAsset : String
  inChunkList : String
  inChunk : String

namespace Row

/-- The element of an asset. -/
def element (row : Row) : Element :=
  ⟨"Asset", row.inAsset,
    [⟨"Id", String.ofList row.spelling.chars, []⟩,
      ⟨"ChunkList", row.inChunkList, [⟨"Chunk", row.inChunk, [⟨"Path", row.path, []⟩]⟩]⟩]⟩

/-- The place of an asset whose map lies in the given directory. -/
def uri (base : String) (row : Row) : String := Location.resolve base (Text.trimmed row.path)

theorem uri_ne_empty (base : String) (row : Row) : row.uri base ≠ "" := by
  intro h
  have hpath : (Text.trimmed row.path).toList ≠ [] := by
    rw [Text.trimmed, String.toList_ofList]
    exact row.path_ne_nil
  have hnil := congrArg String.toList h
  rw [uri, Location.resolve, String.toList_ofList] at hnil
  exact Location.Chars.resolve_ne_nil base.toList hpath hnil

/-- The locator of an asset whose map lies in the given directory. -/
def locator (base : String) (row : Row) : AssetLocator :=
  ⟨row.id, row.uri base, row.uri_ne_empty base⟩

end Row

/-- An asset map as it is written. -/
structure Sheet where
  inMap : String
  inList : String
  rows : List Row

/-- The element of an asset map. -/
def Sheet.element (sheet : Sheet) : Element :=
  ⟨"AssetMap", sheet.inMap, [⟨"AssetList", sheet.inList, sheet.rows.map Row.element⟩]⟩

/-! ## Renderings -/

def mapName : Name := ⟨"AssetMap".toList, by decide, by decide, by decide, by decide⟩

def listName : Name := ⟨"AssetList".toList, by decide, by decide, by decide, by decide⟩

def assetName : Name := ⟨"Asset".toList, by decide, by decide, by decide, by decide⟩

def idName : Name := ⟨"Id".toList, by decide, by decide, by decide, by decide⟩

def chunkListName : Name := ⟨"ChunkList".toList, by decide, by decide, by decide, by decide⟩

def chunkName : Name := ⟨"Chunk".toList, by decide, by decide, by decide, by decide⟩

def pathName : Name := ⟨"Path".toList, by decide, by decide, by decide, by decide⟩

/-- How the texts of an asset are cut into pieces. -/
structure Wording (row : Row) where
  inAsset : List Piece
  id : List Piece
  inChunkList : List Piece
  inChunk : List Piece
  path : List Piece
  inAsset_text : Piece.text inAsset = row.inAsset
  id_text : Piece.text id = String.ofList row.spelling.chars
  inChunkList_text : Piece.text inChunkList = row.inChunkList
  inChunk_text : Piece.text inChunk = row.inChunk
  path_text : Piece.text path = row.path

/-- The chunk list of an asset, as it is worded. -/
def Wording.chunkList {row : Row} (w : Wording row) : Content :=
  .bare chunkListName
    (.pieces w.inChunkList
      (.bare chunkName (.pieces w.inChunk (.bare pathName (.pieces w.path .nil) .nil)) .nil))
    .nil

/-- What stands in an asset, as it is worded. -/
def Wording.content {row : Row} (w : Wording row) : Content :=
  .pieces w.inAsset (.bare idName (.pieces w.id .nil) w.chunkList)

/-- Assets in their order, as they are worded. -/
def contents : List ((row : Row) × Wording row) → Content
  | [] => .nil
  | ⟨_, w⟩ :: assets => .bare assetName w.content (contents assets)

/-- What stands in an asset map: a list of the assets. -/
def listing (inMap inList : List Piece) (assets : List ((row : Row) × Wording row)) : Content :=
  .pieces inMap (.bare listName (.pieces inList (contents assets)) .nil)

/-- A document with the assets, as they are worded. -/
def rendering (marked : Bool) (inMap inList : List Piece)
    (assets : List ((row : Row) × Wording row)) : Source where
  marked := marked
  before := []
  tag := .bare mapName
  body := .between (listing inMap inList assets) .none
  after := []

namespace Wording

variable {row : Row}

theorem elements_chunkList (w : Wording row) :
    w.chunkList.forest.elements =
      [⟨"ChunkList", row.inChunkList, [⟨"Chunk", row.inChunk, [⟨"Path", row.path, []⟩]⟩]⟩] := by
  rw [← w.inChunkList_text, ← w.inChunk_text, ← w.path_text]
  simp only [chunkList, Content.elements_bare, Content.ownText_pieces, Content.elements_pieces,
    Content.ownText_bare]
  simp only [Content.forest, Forest.ownText, Forest.elements, String.append_empty]
  rfl

theorem ownText_content (w : Wording row) : w.content.forest.ownText = row.inAsset := by
  rw [content, Content.ownText_pieces, w.inAsset_text]
  exact String.append_empty

theorem elements_content (w : Wording row) :
    w.content.forest.elements = row.element.children := by
  rw [content, Content.elements_pieces, Content.elements_bare, Content.ownText_pieces, w.id_text,
    Content.elements_pieces, w.elements_chunkList]
  simp only [Content.forest, Forest.ownText, Forest.elements, String.append_empty]
  rfl

end Wording

theorem ownText_contents (assets : List ((row : Row) × Wording row)) :
    (contents assets).forest.ownText = "" := by
  induction assets with
  | nil => rfl
  | cons asset assets ih => exact ih

theorem elements_contents (assets : List ((row : Row) × Wording row)) :
    (contents assets).forest.elements = (assets.map (·.1)).map Row.element := by
  induction assets with
  | nil => rfl
  | cons asset assets ih =>
    obtain ⟨row, w⟩ := asset
    rw [contents, Content.elements_bare, ih, w.ownText_content, w.elements_content]
    rfl

theorem ownText_listing (inMap inList : List Piece)
    (assets : List ((row : Row) × Wording row)) :
    (listing inMap inList assets).forest.ownText = Piece.text inMap := by
  rw [listing, Content.ownText_pieces, Content.ownText_bare]
  exact String.append_empty

theorem elements_listing (inMap inList : List Piece)
    (assets : List ((row : Row) × Wording row)) :
    (listing inMap inList assets).forest.elements =
      [⟨"AssetList", Piece.text inList, (assets.map (·.1)).map Row.element⟩] := by
  rw [listing, Content.elements_pieces, Content.elements_bare, Content.ownText_pieces,
    ownText_contents, Content.elements_pieces, elements_contents, String.append_empty]
  rfl

/-- A rendering means the sheet that it was made from. -/
theorem element_rendering (marked : Bool) (inMap inList : List Piece)
    (assets : List ((row : Row) × Wording row)) :
    (rendering marked inMap inList assets).element =
      Sheet.element ⟨Piece.text inMap, Piece.text inList, assets.map (·.1)⟩ := by
  have hroot : (rendering marked inMap inList assets).element =
      ⟨"AssetMap", (listing inMap inList assets).forest.ownText,
        (listing inMap inList assets).forest.elements⟩ := rfl
  rw [hroot, ownText_listing, elements_listing]
  rfl

end MasterPackage.AssetMap
