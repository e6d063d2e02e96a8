import MasterPackage.Proofs.AssetMap.Duplicates
import MasterPackage.Proofs.AssetMap.Written
import MasterPackage.Proofs.CommandLine.Packages
import MasterPackage.Proofs.Transport.Files

/-!
# Checking an asset map

An asset map can be checked by itself, without the package that it belongs to.  The check finds
what the opening of the package finds: the same assets, or the same error, in which only the
composition is told that the map was wanted for.
-/

namespace MasterPackage

open Transport

namespace AssetMap

variable {ω σ : Type} {h : Host ω σ} {limits : Limits} {options : Options} {url : String}
  {supplied : Option σ} {composition : Option CompositionId} {w : ω}

theorem result_atUrl_eq_ok_iff {r : Registry} :
    (atUrl h limits options url supplied composition w).attempt.result = .ok r ↔
      ∃ bytes, (h.load limits options url supplied w).attempt.result = .ok bytes ∧
        (ofBytes ⟨url, Location.directory url, composition, h.room⟩ bytes).result = .ok r := by
  rw [Package.atUrl_eq, Action.result_announced_eq_ok_iff]
  simp only [Action.result_reading]

theorem result_atUrl_eq_error_iff {e : Error} :
    (atUrl h limits options url supplied composition w).attempt.result = .error e ↔
      (∃ f, (h.load limits options url supplied w).attempt.result = .error f ∧ .load f = e) ∨
        ∃ bytes, (h.load limits options url supplied w).attempt.result = .ok bytes ∧
          (ofBytes ⟨url, Location.directory url, composition, h.room⟩ bytes).result =
            .error e := by
  rw [Package.atUrl_eq, Action.result_announced_eq_error_iff]
  simp only [Action.result_reading]

/-- An asset map that is wanted for another composition is the same, and so are its errors but
for the composition in them. -/
theorem result_atUrl_of_composition (h : Host ω σ) (limits : Limits) (options : Options)
    (url : String) (supplied : Option σ) (composition other : Option CompositionId) (w : ω) :
    (atUrl h limits options url supplied other w).attempt.result =
      (atUrl h limits options url supplied composition w).attempt.result.mapError
        (·.wantedFor other) := by
  have hbytes (bytes : List UInt8) :
      (ofBytes ⟨url, Location.directory url, other, h.room⟩ bytes).result =
        (ofBytes ⟨url, Location.directory url, composition, h.room⟩ bytes).result.mapError
          (·.wantedFor other) :=
    result_ofBytes_of_composition ⟨url, Location.directory url, composition, h.room⟩ bytes other
  cases hread : (atUrl h limits options url supplied composition w).attempt.result with
  | ok r =>
    obtain ⟨bytes, load, read⟩ := result_atUrl_eq_ok_iff.1 hread
    apply result_atUrl_eq_ok_iff.2
    exact ⟨bytes, load, by rw [hbytes, read]; rfl⟩
  | error e =>
    apply result_atUrl_eq_error_iff.2
    rcases result_atUrl_eq_error_iff.1 hread with ⟨f, load, rfl⟩ | ⟨bytes, load, read⟩
    · exact .inl ⟨f, load, rfl⟩
    · exact .inr ⟨bytes, load, by rw [hbytes, read]; rfl⟩

end AssetMap

namespace CommandLine

open AssetMap (Registry)
open Package (Occasion)

section

variable {disk : Disk} {settings : Settings} {url mapUrl : String} {w : Signals}
  {playlist : Playlist} {registry : Registry} {e : AssetMap.Error}

/-- The asset map at a location, for a composition or for none. -/
def mapAt (disk : Disk) (settings : Settings) (mapUrl : String)
    (composition : Option CompositionId) (w : Signals) : Except AssetMap.Error Registry :=
  (AssetMap.atUrl (host disk) settings.limits settings.streamOptions mapUrl none composition
    w).attempt.result

/-- What a check finds in an asset map. -/
def checked (mapUrl : String) (registry : Registry) : MapCheck :=
  ⟨mapUrl, Location.directory mapUrl, registry.size, registry.toList, registry.duplicates⟩

/-- A check fails as its map does, or shows what the map lists. -/
theorem result_checkMap (disk : Disk) (settings : Settings) (mapUrl : String) (w : Signals) :
    (checkMap disk settings mapUrl none w).attempt.result =
      match mapAt disk settings mapUrl none w with
      | .ok registry => .ok (checked mapUrl registry)
      | .error e => .error ⟨assetMapChain e⟩ := by
  unfold checkMap
  cases hread : mapAt disk settings mapUrl none w with
  | ok registry =>
    obtain ⟨bytes, load, read⟩ := AssetMap.result_atUrl_eq_ok_iff.1 hread
    rw [Action.bind_def,
      Action.result_bind_of_ok (Attempt.result_mapError_eq_ok_iff.2 load), Action.bind_def,
      Action.result_bind_of_ok (Attempt.result_mapError_eq_ok_iff.2 read)]
    rfl
  | error e =>
    rcases AssetMap.result_atUrl_eq_error_iff.1 hread with ⟨f, load, rfl⟩ | ⟨bytes, load, read⟩
    · rw [Action.bind_def,
        Action.bind_error (Attempt.result_mapError_eq_error_iff.2 ⟨f, load, rfl⟩)]
    · rw [Action.bind_def,
        Action.result_bind_of_ok (Attempt.result_mapError_eq_ok_iff.2 load), Action.bind_def,
        Action.bind_error (Attempt.result_mapError_eq_error_iff.2 ⟨e, read, rfl⟩)]

theorem limits_withAssetMap (settings : Settings) (assetMap : Option String) :
    (withAssetMap settings assetMap).limits = settings.limits := by
  cases assetMap with
  | none => rfl
  | some url => rfl

theorem streamOptions_withAssetMap (settings : Settings) (assetMap : Option String) :
    (withAssetMap settings assetMap).streamOptions = settings.streamOptions := by
  cases assetMap with
  | none => rfl
  | some url => rfl

theorem playlistLoad_occasion (disk : Disk) (settings : Settings) (url : String) (w : Signals) :
    (occasion disk settings url w).playlistLoad =
      (host disk).load settings.limits settings.streamOptions url none w := rfl

/-- Nothing that the load of the playlist does makes a difference to that of the map. -/
theorem mapLoad_occasion (disk : Disk) (settings : Settings) (url : String) (w : Signals) :
    (occasion disk settings url w).mapLoad =
      (host disk).load settings.limits settings.streamOptions (settings.mapUrl url) none w := by
  have still : (occasion disk settings url w).playlistLoad.world = w :=
    disk.still_host.world_load _ _ _ _ _
  rw [Occasion.mapLoad, still]
  rfl

/-- The list of a package whose playlist is accepted fails as the map does, or shows what the
map lists. -/
theorem result_listAssets_of_accepts
    (accepted : (occasion disk settings url w).Accepts playlist) :
    (listAssets disk settings url w).attempt.result =
      match mapAt disk settings (settings.mapUrl url) (some playlist.id) w with
      | .ok registry => .ok (listing playlist (settings.mapUrl url) registry)
      | .error e => .error (notOpened url (.assetMap e)) := by
  have hload := mapLoad_occasion disk settings url w
  cases hread : mapAt disk settings (settings.mapUrl url) (some playlist.id) w with
  | ok registry =>
    obtain ⟨bytes, load, read⟩ := AssetMap.result_atUrl_eq_ok_iff.1 hread
    rw [← hload] at load
    exact result_listAssets_of_maps accepted ⟨bytes, load, read⟩
  | error e =>
    rcases AssetMap.result_atUrl_eq_error_iff.1 hread with ⟨f, load, rfl⟩ | ⟨bytes, load, read⟩
    · rw [← hload] at load
      exact result_listAssets_of_firstFailure (.mapLoad accepted load)
    · rw [← hload] at load
      exact result_listAssets_of_firstFailure (.map accepted load read)

theorem mapAt_of_composition (disk : Disk) (settings : Settings) (mapUrl : String)
    (composition other : Option CompositionId) (w : Signals) :
    mapAt disk settings mapUrl other w =
      (mapAt disk settings mapUrl composition w).mapError (·.wantedFor other) :=
  AssetMap.result_atUrl_of_composition ..

/-- A map that was wanted for no composition tells of none. -/
theorem wantedFor_none_of_mapAt (failed : mapAt disk settings mapUrl none w = .error e) :
    e.wantedFor none = e := by
  have same := mapAt_of_composition disk settings mapUrl none none w
  rw [failed, Attempt.mapError_error] at same
  exact (Except.error.inj same).symm

/-- A check agrees with the list of a package that takes the same map, if the playlist of the
package is accepted: both show the same assets in the same order, or both fail with the same
error, in which the check tells of no composition and the list of that of the playlist.  The
check counts the assets and notes each identifier that at least two of them have, once.  To
name the directory of the map as the base changes nothing about a check. -/
theorem checkMap_agrees_with_listAssets
    (accepted : (occasion disk (withAssetMap settings (some mapUrl)) url w).Accepts playlist) :
    let check := (checkMap disk settings mapUrl none w).attempt.result
    let list :=
      (listAssets disk (withAssetMap settings (some mapUrl)) url w).attempt.result
    ((∃ c, check = .ok c) ↔ ∃ r, list = .ok r) ∧
    (∀ c r, check = .ok c → list = .ok r →
      c.assets = r.assets ∧ c.count = r.assets.length ∧ c.duplicates.Nodup ∧
        ∀ id, id ∈ c.duplicates ↔ 2 ≤ (r.assets.map AssetLocator.id).count id) ∧
    (∀ f g, check = .error f → list = .error g →
      ∃ e : AssetMap.Error, e.wantedFor none = e ∧ f = ⟨assetMapChain e⟩ ∧
        g = notOpened url (.assetMap (e.wantedFor (some playlist.id)))) ∧
    checkMap disk settings mapUrl (some (Location.directory mapUrl)) w =
      checkMap disk settings mapUrl none w := by
  intro check list
  have hcheck : check = _ := result_checkMap disk settings mapUrl w
  have hlist : list = match mapAt disk settings mapUrl (some playlist.id) w with
      | .ok registry => .ok (listing playlist mapUrl registry)
      | .error e => .error (notOpened url (.assetMap e)) := result_listAssets_of_accepts accepted
  rw [mapAt_of_composition disk settings mapUrl none] at hlist
  refine ⟨?_, ?_, ?_, rfl⟩
  · rw [hcheck, hlist]
    cases mapAt disk settings mapUrl none w with
    | ok registry => exact ⟨fun _ => ⟨_, rfl⟩, fun _ => ⟨_, rfl⟩⟩
    | error e => simp [Attempt.mapError_error]
  · intro c r hc hr
    rw [hcheck] at hc
    rw [hlist] at hr
    cases hread : mapAt disk settings mapUrl none w with
    | ok registry =>
      rw [hread] at hc hr
      obtain rfl : checked mapUrl registry = c := Except.ok.inj hc
      obtain rfl : listing playlist mapUrl registry = r := Except.ok.inj hr
      exact ⟨rfl, rfl, registry.nodup_duplicates, registry.mem_duplicates_iff⟩
    | error e =>
      rw [hread] at hc
      cases hc
  · intro f g hf hg
    rw [hcheck] at hf
    rw [hlist] at hg
    cases hread : mapAt disk settings mapUrl none w with
    | ok registry =>
      rw [hread] at hf
      cases hf
    | error e =>
      rw [hread] at hf hg
      exact ⟨e, wantedFor_none_of_mapAt hread, (Except.error.inj hf).symm,
        (Except.error.inj hg).symm⟩

end

/-! ## A map that lists an asset twice -/

namespace Sample

def playlistName : Markup.Name :=
  ⟨"CompositionPlaylist".toList, by decide, by decide, by decide, by decide⟩

def idText : List Char := "urn:uuid:01010101-0101-0101-0101-010101010101".toList

/-- A playlist with an identifier and nothing else. -/
def playlist : Markup.Source where
  marked := false
  before := []
  tag := .bare playlistName
  body :=
    .between (.bare AssetMap.idName (.pieces [.ofNoBracket idText (by decide)] .nil) .nil) .none
  after := []

def map : Markup.Source :=
  AssetMap.rendering true [] []
    [⟨AssetMap.Sample.row, AssetMap.Sample.wording⟩, ⟨AssetMap.Sample.row, AssetMap.Sample.wording⟩]

def disk : Disk := fun path =>
  if path = "CPL.xml" then .file playlist.bytes
  else if path = "ASSETMAP.xml" then .file map.bytes
  else .notFound

def settings : Settings := ⟨none, .empty, 4000, 64⟩

def composition : Playlist := ⟨⟨⟨List.replicate 16 1, by decide⟩⟩, none, []⟩

theorem disk_playlist : disk "CPL.xml" = .file playlist.bytes := if_pos rfl

theorem disk_map : disk "ASSETMAP.xml" = .file map.bytes := by
  rw [disk, if_neg (by decide), if_pos rfl]

theorem memory : settings.limits.maxSize.toNat + 1 < 0x800000000000 := by decide +kernel

theorem accepts_playlist :
    (occasion disk (withAssetMap settings (some "ASSETMAP.xml")) "CPL.xml" ⟨false, 0⟩).Accepts
      composition := by
  have onMachine : Location.machinePath "CPL.xml" = .ok "CPL.xml" := by rfl
  have fits : playlist.bytes.length ≤ settings.limits.maxSize.toNat := by decide +kernel
  have loaded : (occasion disk (withAssetMap settings (some "ASSETMAP.xml")) "CPL.xml"
      ⟨false, 0⟩).playlistLoad.attempt.result = .ok playlist.bytes := by
    rw [playlistLoad_occasion, limits_withAssetMap, streamOptions_withAssetMap, host]
    exact Disk.load_file onMachine disk_playlist playlist.bytes_ne_nil fits memory _ _
  have parsed : (Markup.Document.parse "CPL.xml" playlist.bytes).result =
      .ok ⟨"CPL.xml", some playlist.element⟩ :=
    Markup.Document.result_parse_eq_ok_iff.2
      ⟨playlist.chars, some playlist.element, playlist.text_bytes,
        playlist.result_tree_document, rfl⟩
  have read : (Playlist.ofRoot (some playlist.element)).result = .ok composition := by rfl
  refine ⟨playlist.bytes, loaded, Attempt.result_mapError_eq_ok_iff.2 ?_⟩
  exact Attempt.result_bind_eq_ok_iff.2 ⟨_, Attempt.result_mapError_eq_ok_iff.2 parsed,
    Attempt.result_mapError_eq_ok_iff.2 read⟩

/-- The entry of the asset. -/
def asset : AssetLocator :=
  AssetMap.Sample.row.locator (Location.directory "ASSETMAP.xml")

theorem mapAt_map :
    mapAt disk settings "ASSETMAP.xml" none ⟨false, 0⟩ = .ok (.ofList [asset, asset]) := by
  have onMachine : Location.machinePath "ASSETMAP.xml" = .ok "ASSETMAP.xml" := by rfl
  have fits : map.bytes.length ≤ settings.limits.maxSize.toNat := by decide +kernel
  have loaded : ((host disk).load settings.limits settings.streamOptions "ASSETMAP.xml" none
      ⟨false, 0⟩).attempt.result = .ok map.bytes := by
    rw [host]
    exact Disk.load_file onMachine disk_map map.bytes_ne_nil fits memory _ _
  have means := AssetMap.element_rendering true [] []
    [⟨AssetMap.Sample.row, AssetMap.Sample.wording⟩, ⟨AssetMap.Sample.row, AssetMap.Sample.wording⟩]
  exact AssetMap.result_atUrl_eq_ok_iff.2
    ⟨map.bytes, loaded, AssetMap.ofBytes_written (fun _ _ => rfl) means⟩

end Sample

/-- Both commands find the asset twice, and the check notes it. -/
theorem check_sample :
    ∃ c r, (checkMap Sample.disk Sample.settings "ASSETMAP.xml" none ⟨false, 0⟩).attempt.result =
        .ok c ∧
      (listAssets Sample.disk (withAssetMap Sample.settings (some "ASSETMAP.xml")) "CPL.xml"
        ⟨false, 0⟩).attempt.result = .ok r ∧
      c.assets = r.assets ∧ c.count = 2 ∧ AssetMap.Sample.row.id ∈ c.duplicates := by
  obtain ⟨both, agree, -⟩ := checkMap_agrees_with_listAssets Sample.accepts_playlist
  have hcheck := result_checkMap Sample.disk Sample.settings "ASSETMAP.xml" ⟨false, 0⟩
  rw [Sample.mapAt_map] at hcheck
  obtain ⟨r, hlist⟩ := both.1 ⟨_, hcheck⟩
  obtain ⟨assets, count, -, duplicates⟩ := agree _ r hcheck hlist
  have twice : r.assets = [Sample.asset, Sample.asset] := by
    rw [← assets]
    exact AssetMap.Registry.toList_ofList _
  refine ⟨_, r, hcheck, hlist, assets, ?_, ?_⟩
  · rw [count, twice]
    rfl
  · rw [duplicates, twice]
    decide

end CommandLine

end MasterPackage
