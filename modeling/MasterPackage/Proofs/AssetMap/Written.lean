import MasterPackage.AssetMap.AtUrl
import MasterPackage.Proofs.AssetMap.Index
import MasterPackage.Proofs.AssetMap.Sheet
import MasterPackage.Proofs.AssetMap.Structure
import MasterPackage.Proofs.Markup.RoundTrip
import MasterPackage.Proofs.Transport.Rounds
import MasterPackage.Transport.Rehearsal

/-!
# Loading asset maps that were written

However the tree of an asset map is written down as a document, and however the bytes of
the document arrive, loading the map gives the registry of the assets in order, each at
its path resolved against the directory of the map.
-/

namespace MasterPackage

namespace AssetMap

open Markup (Element)

/-! ## Reading -/

theorem readId_element (ctx : Context) (row : Row) : readId ctx row.element = .ok row.id := by
  have hchild : row.element.child? "Id" = some ⟨"Id", String.ofList row.spelling.chars, []⟩ :=
    Element.child?_first ⟨"Id", String.ofList row.spelling.chars, []⟩ rfl
  have htrim : Text.trim (String.ofList row.spelling.chars).toList = row.spelling.core := by
    rw [String.toList_ofList, row.spelling.trim_chars]
  have hne : Text.trim (String.ofList row.spelling.chars).toList ≠ [] := by
    rw [htrim]
    exact row.spelling.core_ne_nil
  have htext : row.element.textOf? "Id" =
      some (Text.trimmed (String.ofList row.spelling.chars)) := by
    rw [Element.textOf?, hchild, Option.bind_some, Element.trimmedText?_mk hne]
  have hparse : AssetId.parse (Text.trimmed (String.ofList row.spelling.chars)) = .ok row.id := by
    rw [AssetId.parse, row.spelling.parse_trimmed]
    rfl
  rw [readId, htext]
  simp only [hparse]
  rfl

/-- The chunk of an asset. -/
def Row.chunk (row : Row) : Element := ⟨"Chunk", row.inChunk, [⟨"Path", row.path, []⟩]⟩

theorem readChunk_element (ctx : Context) (row : Row) (id : AssetId) :
    readChunk ctx row.element id = .ok (row.chunk, false) := by
  have hother : Markup.sameTag "Id" "ChunkList" = false := by decide
  have hlist : row.element.child? "ChunkList" =
      some ⟨"ChunkList", row.inChunkList, [row.chunk]⟩ := by
    rw [Element.child?, Row.element]
    rw [List.find?_cons_of_neg (by simp [Element.isNamed, hother])]
    exact List.find?_cons_of_pos (Element.isNamed_self _)
  have hchunks : Element.childrenNamed ⟨"ChunkList", row.inChunkList, [row.chunk]⟩ "Chunk" =
      [row.chunk] := List.filter_cons_of_pos (Element.isNamed_self row.chunk)
  rw [readChunk, hlist]
  simp only [hchunks]
  rfl

theorem readPlace_element (ctx : Context) (row : Row) :
    readPlace ctx row.chunk row.id = .ok (row.locator ctx.baseDir) := by
  have hchild : row.chunk.child? "Path" = some ⟨"Path", row.path, []⟩ :=
    Element.child?_first ⟨"Path", row.path, []⟩ rfl
  have htext : row.chunk.textOf? "Path" = some (Text.trimmed row.path) := by
    rw [Element.textOf?, hchild, Option.bind_some, Element.trimmedText?_mk row.path_ne_nil]
  have hplace : AssetLocator.of? row.id (Location.resolve ctx.baseDir (Text.trimmed row.path)) =
      .ok (row.locator ctx.baseDir) := AssetLocator.of?_of_ne (row.uri_ne_empty ctx.baseDir)
  rw [readPlace, htext]
  simp only [hplace]
  rfl

/-- An asset is read as the locator of its identifier and its path. -/
theorem readAsset_element (ctx : Context) (row : Row) :
    (readAsset ctx row.element).result = .ok (row.locator ctx.baseDir) := by
  have hchunk := readChunk_element ctx row row.id
  have hplace := readPlace_element ctx row
  change (Attempt.bind (Attempt.ofExcept (readId ctx row.element)) fun id =>
    (Attempt.ofExcept (readChunk ctx row.element id)).bind fun found => _).result = _
  refine Attempt.result_bind_eq_ok_iff.2 ⟨row.id, readId_element ctx row, ?_⟩
  refine Attempt.result_bind_eq_ok_iff.2 ⟨_, hchunk, ?_⟩
  exact hplace

/-- The assets of a tree are entered in order. -/
theorem readAssets_elements {ctx : Context} (r : Registry) (rows : List Row)
    (room : ∀ n < r.size + rows.length, ctx.room n = true) :
    (readAssets ctx r (rows.map Row.element)).result =
      .ok ((rows.map (Row.locator ctx.baseDir)).foldl Registry.push r) := by
  induction rows generalizing r with
  | nil => rfl
  | cons row rows ih =>
    have hnamed : row.element.isNamed "Asset" = true := Element.isNamed_self row.element
    rw [List.map_cons, readAssets, if_pos hnamed]
    refine Attempt.result_bind_eq_ok_iff.2 ⟨_, readAsset_element ctx row, ?_⟩
    rw [List.length_cons] at room
    have now : ctx.room r.size = true := room r.size (by omega)
    refine Attempt.result_bind_eq_ok_iff.2 ⟨_, enter_of_room now _, ih _ ?_⟩
    intro n hn
    rw [Registry.size_push] at hn
    exact room n (by omega)

/-- The tree of an asset map is read as the registry of its assets. -/
theorem ofRoot_element {ctx : Context} {sheet : Sheet}
    (room : ∀ n < sheet.rows.length, ctx.room n = true) :
    (ofRoot ctx (some sheet.element)).result =
      .ok (.ofList (sheet.rows.map (Row.locator ctx.baseDir))) := by
  have hnamed : sheet.element.isNamed "AssetMap" = true := Element.isNamed_self sheet.element
  have hchild : sheet.element.child? "AssetList" =
      some ⟨"AssetList", sheet.inList, sheet.rows.map Row.element⟩ :=
    Element.child?_first ⟨"AssetList", sheet.inList, sheet.rows.map Row.element⟩ rfl
  have hlist : assetList ctx (some sheet.element) =
      .ok ⟨"AssetList", sheet.inList, sheet.rows.map Row.element⟩ := by
    simp only [assetList, if_pos hnamed, hchild]
  refine Attempt.result_bind_eq_ok_iff.2 ⟨_, hlist, ?_⟩
  apply readAssets_elements
  intro n hn
  have size : Registry.empty.size = 0 := rfl
  exact room n (by omega)

/-- A document that means an asset map is read as the registry of its assets. -/
theorem ofBytes_written {ctx : Context} {d : Markup.Source} {sheet : Sheet}
    (room : ∀ n < sheet.rows.length, ctx.room n = true) (means : d.element = sheet.element) :
    (ofBytes ctx d.bytes).result = .ok (.ofList (sheet.rows.map (Row.locator ctx.baseDir))) := by
  have hparse : (Markup.Document.parse ctx.document d.bytes).result =
      .ok ⟨ctx.document, some sheet.element⟩ :=
    Markup.Document.result_parse_eq_ok_iff.2
      ⟨d.chars, some sheet.element, d.text_bytes, means ▸ d.result_tree_document, rfl⟩
  have hread := ofRoot_element room
  exact Attempt.result_bind_eq_ok_iff.2
    ⟨⟨ctx.document, some sheet.element⟩, Attempt.result_mapError_eq_ok_iff.2 hparse, hread⟩

/-! ## Loading -/

section

open Transport

variable {ω σ : Type} {h : Host ω σ} {limits : Limits} {options : Options} {url : String}
  {supplied : Option σ}

/-- Bytes that were loaded and read make the registry. -/
theorem result_atUrl {w : ω} {composition : Option CompositionId} {bytes : List UInt8}
    {r : Registry} (loaded : (h.load limits options url supplied w).attempt.result = .ok bytes)
    (read : (ofBytes ⟨url, Location.directory url, composition, h.room⟩ bytes).result = .ok r) :
    (atUrl h limits options url supplied composition w).attempt.result = .ok r := by
  have hload : ((h.load limits options url supplied).mapError Error.load w).attempt.result =
      .ok bytes := Attempt.result_mapError_eq_ok_iff.2 loaded
  have hnote (n : Note) (f : Unit → Action ω Error Registry) (w : ω) :
      ((Action.note n).bind f w).attempt.result = (f () w).attempt.result := rfl
  change ((Action.note (loadingNote url)).bind (fun _ =>
    ((h.load limits options url supplied).mapError Error.load).bind fun bytes =>
      (Action.ofNoted (ofBytes ⟨url, Location.directory url, composition, h.room⟩ bytes)).bind
        fun registry =>
          (Action.note (parsedNote url (Location.directory url) registry.size)).bind fun _ =>
            Action.ofAttempt (.ok registry)) w).attempt.result = _
  rw [hnote, Action.result_bind_of_ok hload, Action.result_bind_of_ok read, hnote]
  rfl

/-- A written asset map that a stream delivers is loaded as the registry of its assets: as
many entries as assets, in their order, each with its identifier and its path resolved
against the directory of the map; and an identifier finds its first entry. -/
theorem load_written {s : σ} {w w₁ : ω} (served : h.Serves options url supplied w s w₁)
    (granted : ¬h.Refuses (h.load limits options url supplied w).attempt.record)
    {d : Markup.Source} {sheet : Sheet} (room : ∀ n < sheet.rows.length, h.room n = true)
    (means : d.element = sheet.element) (delivered : h.Delivers s w₁ d.bytes)
    (fits : d.bytes.length ≤ limits.maxSize.toNat) (composition : Option CompositionId) :
    ∃ r, (atUrl h limits options url supplied composition w).attempt.result = .ok r ∧
      r.size = sheet.rows.length ∧
      (r.toList.map fun l => (l.id, l.uri)) =
        (sheet.rows.map fun row =>
          (row.id, Location.resolve (Location.directory url) (Text.trimmed row.path))) ∧
      ∀ id, r.get? id = r.toList.find? (·.id == id) := by
  have loaded : (h.load limits options url supplied w).attempt.result = .ok d.bytes :=
    (served.load_eq_ok_iff granted).2 ⟨delivered, d.bytes_ne_nil, fits⟩
  have read : (ofBytes ⟨url, Location.directory url, composition, h.room⟩ d.bytes).result =
      .ok (.ofList (sheet.rows.map (Row.locator (Location.directory url)))) :=
    ofBytes_written room means
  refine ⟨_, result_atUrl loaded read, ?_, ?_, ?_⟩
  · rw [Registry.size_ofList, List.length_map]
  · rw [Registry.toList_ofList, List.map_map]
    rfl
  · intro id
    rw [Registry.get?_ofList, Registry.toList_ofList]

end

/-! ## A map of one asset -/

namespace Sample

open Markup Transport

/-- Sixteen equal bytes, spelled in both cases, behind the name space and between blanks. -/
def row : Row where
  id := ⟨⟨List.replicate 16 0xAB, by decide⟩⟩
  spelling :=
    ⟨[' '], "URN:uuid:".toList, "ABABabab-abab-ABAB-abab-abababababab".toList, ['\n'], by decide,
      by decide, by decide, by decide⟩
  path := " a&b/c.mxf"
  path_ne_nil := by decide
  inAsset := ""
  inChunkList := ""
  inChunk := ""

/-- The path has one part that is escaped, and others that stand in sections. -/
def wording : Wording row where
  inAsset := []
  id := [.ofNoBracket row.spelling.chars (by decide)]
  inChunkList := []
  inChunk := []
  path :=
    [.ofNoBracket " a".toList (by decide),
      .spelled [.reference (.named .amp), .plain 'b' (by decide) (by decide)],
      .ofNoBracket "/c.mxf".toList (by decide)]
  inAsset_text := rfl
  id_text := rfl
  inChunkList_text := rfl
  inChunk_text := rfl
  path_text := by decide

def source : Markup.Source := rendering true [] [] [⟨row, wording⟩]

/-- The document arrives in two chunks, each after a disturbed read. -/
def stream : Stream :=
  .scripted (.start
    [.again, .data (source.bytes.take 100), .again, .data (source.bytes.drop 100)] .played none)

def host : Host Signals Stream :=
  (⟨[("mem://p/ASSETMAP.xml", .stream stream)], .never⟩ : Rehearsal).host

end Sample

open Transport in
theorem load_sample :
    ∃ r, (atUrl Sample.host ⟨64, 1000⟩ .empty "mem://p/ASSETMAP.xml" none none
        ⟨false, 0⟩).attempt.result = .ok r ∧
      r.size = 1 ∧ (r.toList.map fun l => (l.id, l.uri)) = [(Sample.row.id, "mem://p/a&b/c.mxf")] ∧
      ∀ id, r.get? id = r.toList.find? (·.id == id) := by
  have served : Sample.host.Serves .empty "mem://p/ASSETMAP.xml" none ⟨false, 0⟩ Sample.stream
      ⟨false, 0⟩ := .opened rfl
  have granted : ¬Sample.host.Refuses (Sample.host.load ⟨64, 1000⟩ .empty
      "mem://p/ASSETMAP.xml" none ⟨false, 0⟩).attempt.record :=
    Rehearsal.not_refuses_load _ served (by decide) (by decide)
  have delivered : Sample.host.Delivers Sample.stream ⟨false, 0⟩ Sample.source.bytes :=
    ⟨4, by decide +kernel, by decide +kernel, by decide +kernel⟩
  have means := element_rendering true [] [] [⟨Sample.row, Sample.wording⟩]
  have uri : Location.resolve (Location.directory "mem://p/ASSETMAP.xml")
      (Text.trimmed Sample.row.path) = "mem://p/a&b/c.mxf" := by decide
  obtain ⟨r, loaded, size, list, first⟩ :=
    load_written served granted (fun _ _ => rfl) means delivered (by decide +kernel) none
  refine ⟨r, loaded, size, ?_, first⟩
  rw [list, List.map_singleton, List.map_singleton, uri]

end AssetMap

end MasterPackage
