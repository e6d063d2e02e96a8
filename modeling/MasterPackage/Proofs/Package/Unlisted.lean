import MasterPackage.Proofs.AssetMap.Scan
import MasterPackage.Proofs.AssetMap.Written
import MasterPackage.Proofs.Package.Kinds
import MasterPackage.Proofs.Playlist.References
import MasterPackage.Proofs.Transport.Files

/-!
# Assets that are not listed

A package that is ready can tell which track files its playlist refers to and its asset map does
not list.  Both documents are compared by the identifiers that their texts spell, however they are
spelled: whether a reference is listed is told here by the two trees, with nothing of the readers
or of the registry in it.
-/

namespace MasterPackage

open Markup (Element)

/-! ## The two documents -/

/-- A playlist refers to an identifier: a reference spells it that is not inside of another. -/
def Playlist.Mentions (root : Element) (id : AssetId) : Prop :=
  ∃ e ∈ Playlist.references root, Uuid.Spells e.text id.uuid

theorem Playlist.RefersTo.mem_iff_mentions {root : Element} {ids : List AssetId}
    (refers : RefersTo root ids) (id : AssetId) : id ∈ ids ↔ Mentions root id := by
  simp only [refers.mem_iff, reference_eq_ok_iff, Mentions]

namespace AssetMap

/-- A list of assets has an identifier: the first identifier in one of its assets spells it. -/
def HasAsset (list : Element) (id : AssetId) : Prop :=
  ∃ asset ∈ list.childrenNamed "Asset",
    ∃ child, asset.First "Id" child ∧ Uuid.Spells child.text id.uuid

variable {e list : Element} {es : List Element} {id : AssetId} {baseDir : String}
  {ls : List AssetLocator}

theorem identified_iff_spells :
    Identified e id ↔ ∃ child, e.First "Id" child ∧ Uuid.Spells child.text id.uuid := by
  constructor
  · intro identified
    obtain ⟨_, ⟨child, first, -, rfl⟩, parsed⟩ := identified
    exact ⟨child, first, Uuid.parse_asset_trimmed_eq_ok_iff.1 parsed⟩
  · intro spelled
    obtain ⟨child, first, spells⟩ := spelled
    exact ⟨_, Playlist.says_of_spells first spells, Uuid.parse_asset_trimmed_eq_ok_iff.2 spells⟩

/-- The entries have the identifiers of the assets, and no others. -/
theorem Entries.lists_iff (entries : Entries baseDir es ls) (id : AssetId) :
    Registry.Lists ls id ↔ ∃ e ∈ es, Identified e id := by
  induction entries with
  | nil => simp [Registry.Lists]
  | @cons e l es ls entry entries ih =>
    have first : l.id = id ↔ Identified e id :=
      ⟨fun same => same ▸ entry.1, fun identified => entry.1.unique identified⟩
    have others : Registry.Lists ls id ↔ ∃ e ∈ es, Identified e id := ih
    simp only [Registry.Lists, List.exists_mem_cons_iff] at others ⊢
    rw [first, others]

theorem Entries.lists_iff_hasAsset (entries : Entries baseDir (list.childrenNamed "Asset") ls)
    (id : AssetId) : Registry.Lists ls id ↔ HasAsset list id := by
  rw [entries.lists_iff id]
  simp only [identified_iff_spells, HasAsset]

end AssetMap

/-! ## Ready packages -/

namespace Package.Occasion

variable {ω σ : Type} {o : Occasion ω σ Playlist}

/-- A package is ready because of two trees, and it looks for what is said in the one among what
is said in the other. -/
theorem exists_trees_of_ready (identity : o.reader = .identity)
    (ready : o.opening.package.state = .ready) :
    ∃ p root map list ids ls, o.Accepts p ∧
      o.Makes o.playlistDocument (· = some root) ∧ o.Makes (o.mapDocument p) (· = some map) ∧
      AssetMap.ListOf (some map) list ∧ Playlist.RefersTo root ids ∧
      AssetMap.Entries (o.context p).baseDir (list.childrenNamed "Asset") ls ∧
      o.opening.package.unlistedAssets o.reader =
        .ok (ids.eraseDups.filter fun id => !(AssetMap.Registry.ofList ls).contains id) := by
  rcases o.maps_or_firstFailure with ⟨p, registry, accepted, maps⟩ | ⟨e, failure⟩
  · have ⟨bytes, loaded, read⟩ := accepted
    rw [identity, Playlist.read_identity_eq_ok_iff] at read
    obtain ⟨d, parsed, hroot⟩ := read
    obtain ⟨root, ids, tree, -, -, refers, hp⟩ := Playlist.result_ofRoot_eq_ok_iff.1 hroot
    have ⟨mapBytes, mapLoaded, mapRead⟩ := maps
    obtain ⟨mapD, mapParsed, hmap⟩ := AssetMap.result_ofBytes_eq_ok_iff.1 mapRead
    obtain ⟨list, ls, ⟨map, mapTree, named, first⟩, entries, -, rfl⟩ :=
      AssetMap.result_ofRoot_eq_ok_iff.1 hmap
    refine ⟨p, root, map, list, ids, ls, accepted, ⟨bytes, d, loaded, parsed, tree⟩,
      ⟨mapBytes, mapD, mapLoaded, mapParsed, mapTree⟩, ⟨map, rfl, named, first⟩, refers, entries,
      ?_⟩
    have trackFiles : p.trackFiles = ids.eraseDups := congrArg Playlist.trackFiles hp
    rw [(opening_of_maps accepted maps).2, identity, ← trackFiles]
    rfl
  · rw [(opening_of_firstFailure failure).2] at ready
    cases ready

/-- What a package that became ready finds missing is what its playlist refers to and its asset
map does not list: each identifier once, in the order in which the playlist first refers to them.
Nothing is missing exactly if everything is listed.  It does not matter how the two documents
spell an identifier. -/
theorem unlistedAssets_by_documents (identity : o.reader = .identity)
    (ready : o.opening.package.state = .ready) :
    ∃ p root map list ids missing, o.Accepts p ∧
      o.Makes o.playlistDocument (· = some root) ∧ o.Makes (o.mapDocument p) (· = some map) ∧
      AssetMap.ListOf (some map) list ∧ Playlist.RefersTo root ids ∧
      o.opening.package.unlistedAssets o.reader = .ok missing ∧
      missing.Nodup ∧ missing.Pairwise (fun a b => ids.idxOf a < ids.idxOf b) ∧
      (∀ id, id ∈ missing ↔ Playlist.Mentions root id ∧ ¬AssetMap.HasAsset list id) ∧
      (missing = [] ↔ ∀ id, Playlist.Mentions root id → AssetMap.HasAsset list id) := by
  obtain ⟨p, root, map, list, ids, ls, accepted, tree, mapTree, hlist, refers, entries, asked⟩ :=
    exists_trees_of_ready identity ready
  have members (id : AssetId) :
      id ∈ ids.eraseDups.filter (fun id => !(AssetMap.Registry.ofList ls).contains id) ↔
        Playlist.Mentions root id ∧ ¬AssetMap.HasAsset list id := by
    rw [List.mem_filter, List.mem_eraseDups, refers.mem_iff_mentions, Bool.not_eq_true',
      ← Bool.not_eq_true, AssetMap.Registry.contains_ofList_iff, entries.lists_iff_hasAsset]
  refine ⟨p, root, map, list, ids, _, accepted, tree, mapTree, hlist, refers, asked,
    (Playlist.nodup_eraseDups ids).filter _, (Playlist.pairwise_eraseDups ids).filter _, members,
    ?_⟩
  rw [List.eq_nil_iff_forall_not_mem]
  constructor
  · intro none id mentioned
    by_contra unlisted
    exact none id ((members id).2 ⟨mentioned, unlisted⟩)
  · intro all id missing
    obtain ⟨mentioned, unlisted⟩ := (members id).1 missing
    exact unlisted (all id mentioned)

namespace Sample

/-- Another spelling of the identifier that is listed. -/
def listed : AssetMap.Sample.row.id.uuid.Spelling where
  before := ['\r', '\n']
  space := "Urn:Uuid:".toList
  body := "abababab-abab-abab-abab-abababababab".toList
  after := ['\t', ' ']
  before_blank := by decide
  space_folded := .inr (by decide)
  body_folded := by decide
  after_blank := by decide

/-- A playlist with two references, to an asset that is listed and to one that is not. -/
def playlist : Markup.Source where
  marked := false
  before := []
  tag := .bare Playlist.Sample.playlistName
  body :=
    .between
      (.bare Playlist.Sample.idName (.pieces [Playlist.Sample.plainPiece] .nil)
        (.bare Playlist.Sample.trackFileName (.pieces [.ofNoBracket listed.chars (by decide)] .nil)
          (.bare Playlist.Sample.trackFileName (.pieces [Playlist.Sample.plainPiece] .nil) .nil)))
      .none
  after := []

def disk : Transport.Disk := fun path =>
  if path = "CPL.xml" then .file playlist.bytes
  else if path = "ASSETMAP.xml" then .file AssetMap.Sample.source.bytes
  else .notFound

def settings : Settings := ⟨some "ASSETMAP.xml", .empty, 4000, 64⟩

def occasion : Occasion Transport.Signals Transport.OpenFile Playlist :=
  ⟨disk.host .never, .identity, settings, "CPL.xml", none, ⟨false, 0⟩⟩

def contents : Playlist :=
  ⟨⟨Playlist.Sample.trackFile⟩, none, [AssetMap.Sample.row.id, ⟨Playlist.Sample.trackFile⟩]⟩

/-- The references of the playlist. -/
def first : Element := ⟨"TrackFileId", String.ofList listed.chars, []⟩

def second : Element := ⟨"TrackFileId", String.ofList Playlist.Sample.plain.chars, []⟩

theorem ofRoot_playlist : (Playlist.ofRoot (some playlist.element)).result = .ok contents := by
  have identified : Playlist.Identified playlist.element contents.id :=
    Playlist.Sample.identified (Element.child?_eq_some_iff.1 rfl)
  have refers : Playlist.RefersTo playlist.element contents.trackFiles := by
    have found : Playlist.references playlist.element = [first, second] := rfl
    have there : Playlist.reference first = .ok AssetMap.Sample.row.id :=
      Playlist.reference_eq_ok_iff.2 ⟨listed, rfl⟩
    have missing : Playlist.reference second = .ok ⟨Playlist.Sample.trackFile⟩ :=
      Playlist.reference_eq_ok_iff.2 ⟨Playlist.Sample.plain, rfl⟩
    rw [Playlist.RefersTo, found, List.map_cons, List.map_cons, there, missing]
    rfl
  have once : contents.trackFiles.eraseDups = contents.trackFiles := by decide
  refine Playlist.result_ofRoot_eq_ok_iff.2 ⟨_, _, rfl, rfl, identified, refers, ?_⟩
  rw [once]
  rfl

theorem memory : settings.limits.maxSize.toNat + 1 < 0x800000000000 := by decide +kernel

theorem playlistLoad_occasion :
    occasion.playlistLoad =
      (disk.host .never).load settings.limits settings.streamOptions "CPL.xml" none
        occasion.world := rfl

theorem mapLoad_occasion :
    occasion.mapLoad =
      (disk.host .never).load settings.limits settings.streamOptions "ASSETMAP.xml" none
        occasion.playlistLoad.world := rfl

theorem accepts : occasion.Accepts contents := by
  have onMachine : Location.machinePath "CPL.xml" = .ok "CPL.xml" := by rfl
  have there : disk "CPL.xml" = .file playlist.bytes := if_pos rfl
  have fits : playlist.bytes.length ≤ settings.limits.maxSize.toNat := by decide +kernel
  have loaded := Transport.Disk.load_file onMachine there playlist.bytes_ne_nil fits memory
    settings.streamOptions occasion.world
  rw [← playlistLoad_occasion] at loaded
  have parsed := Markup.Document.parse_written playlist "CPL.xml"
  exact ⟨playlist.bytes, loaded, Playlist.read_identity_eq_ok_iff.2 ⟨_, parsed, ofRoot_playlist⟩⟩

def asset : AssetLocator := AssetMap.Sample.row.locator (occasion.context contents).baseDir

theorem maps : occasion.Maps contents (.ofList [asset]) := by
  have onMachine : Location.machinePath "ASSETMAP.xml" = .ok "ASSETMAP.xml" := by rfl
  have there : disk "ASSETMAP.xml" = .file AssetMap.Sample.source.bytes := by
    rw [disk, if_neg (by decide), if_pos rfl]
  have fits : AssetMap.Sample.source.bytes.length ≤ settings.limits.maxSize.toNat := by
    decide +kernel
  have loaded := Transport.Disk.load_file onMachine there AssetMap.Sample.source.bytes_ne_nil fits
    memory settings.streamOptions occasion.playlistLoad.world
  rw [← mapLoad_occasion] at loaded
  have means :=
    AssetMap.element_rendering true [] [] [⟨AssetMap.Sample.row, AssetMap.Sample.wording⟩]
  exact ⟨_, loaded, AssetMap.ofBytes_written (fun _ _ => rfl) means⟩

theorem unlistedAssets_occasion :
    occasion.opening.package.unlistedAssets occasion.reader =
      .ok [⟨Playlist.Sample.trackFile⟩] := by
  have listed : (AssetMap.Registry.ofList [asset]).contains AssetMap.Sample.row.id = true :=
    (AssetMap.Registry.contains_ofList_iff _ _).2 ⟨asset, List.mem_singleton_self _, rfl⟩
  have missing :
      (AssetMap.Registry.ofList [asset]).contains ⟨Playlist.Sample.trackFile⟩ = false := by
    rw [← Bool.not_eq_true, AssetMap.Registry.contains_ofList_iff]
    intro listed
    obtain ⟨l, hl, same⟩ := listed
    rw [List.mem_singleton.1 hl] at same
    exact absurd same (by decide)
  have asked : occasion.opening.package.unlistedAssets occasion.reader =
      .ok ([AssetMap.Sample.row.id, ⟨Playlist.Sample.trackFile⟩].filter
        fun id => !(AssetMap.Registry.ofList [asset]).contains id) := by
    rw [(opening_of_maps accepts maps).2]
    rfl
  simpa [listed, missing] using asked

end Sample

/-- Of two references, one is found in another spelling, and the other is missing. -/
theorem unlistedAssets_sample :
    Sample.occasion.opening.package.state = .ready ∧
      ∃ root list, Playlist.Mentions root ⟨Playlist.Sample.trackFile⟩ ∧
        ¬AssetMap.HasAsset list ⟨Playlist.Sample.trackFile⟩ ∧
        ∀ id, Playlist.Mentions root id →
          id = ⟨Playlist.Sample.trackFile⟩ ∨ AssetMap.HasAsset list id := by
  have ready : Sample.occasion.opening.package.state = .ready := by
    rw [(opening_of_maps Sample.accepts Sample.maps).2]
    rfl
  obtain ⟨p, root, map, list, ids, missing, -, -, -, -, -, asked, -, -, members, -⟩ :=
    unlistedAssets_by_documents rfl ready
  have same : missing = [⟨Playlist.Sample.trackFile⟩] :=
    Except.ok.inj (asked.symm.trans Sample.unlistedAssets_occasion)
  subst same
  obtain ⟨mentioned, unlisted⟩ :=
    (members ⟨Playlist.Sample.trackFile⟩).1 (List.mem_singleton_self _)
  refine ⟨ready, root, list, mentioned, unlisted, fun id mention => ?_⟩
  by_contra other
  rw [not_or] at other
  exact other.1 (List.mem_singleton.1 ((members id).2 ⟨mention, other.2⟩))

end Package.Occasion

end MasterPackage
