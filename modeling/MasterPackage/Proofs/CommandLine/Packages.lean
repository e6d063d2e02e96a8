import MasterPackage.CommandLine.Run
import MasterPackage.Proofs.AssetMap.Bytes
import MasterPackage.Proofs.AssetMap.Scan
import MasterPackage.Proofs.Package.Opening

/-!
# Commands on packages

Two commands open a package: one lists what its asset map lists and what is missing from it,
the other finds a single asset.  Both come to what the opening of the package comes to; and if
it opens, the first answers from the list of the registry and the second from its index.

* `result_listAssets_of_maps`, `result_findAsset_of_maps`: the reports on a package that opens.
* `listAssets_eq_error_iff`: why there is no list.
* `findAsset_agrees_with_listAssets`: the two commands give the same answers.
-/

namespace MasterPackage.CommandLine

open AssetMap (Registry)
open Package (Occasion)
open Transport

variable {disk : Disk} {settings : Settings} {url text : String} {w : Signals}
  {playlist : Playlist} {registry : Registry} {id : AssetId}

/-- What it takes for a command to open the package of a playlist. -/
def occasion (disk : Disk) (settings : Settings) (url : String) (w : Signals) :
    Occasion Signals OpenFile Playlist :=
  ⟨host disk, .identity, settings, url, none, w⟩

/-- What is told of a package that does not open. -/
def notOpened (url : String) (e : Package.Error) : Failure :=
  Failure.during ("opening IMF package " ++ url) (packageChain e)

/-- What is told of a text that is no identifier. -/
def notAnId (text : String) (e : Uuid.Error) : Failure :=
  Failure.during ("invalid asset id " ++ Text.quoted text) [e.message]

/-- What is told of an identifier that is not listed. -/
def notListed (id : AssetId) : Failure := ⟨assetMapChain (.notListed id)⟩

theorem chain_notOpened (url : String) (e : Package.Error) :
    (notOpened url e).chain = ("opening IMF package " ++ url) :: packageChain e := rfl

theorem chain_notListed (id : AssetId) :
    (notListed id).chain = ["asset " ++ id.text ++ " is not listed in the asset map"] := rfl

/-- Nobody takes the one for the other. -/
theorem notOpened_ne_notListed (url : String) (e : Package.Error) (id : AssetId) :
    notOpened url e ≠ notListed id := by
  intro h
  have hchain : (notOpened url e).chain = (notListed id).chain := by rw [h]
  rw [chain_notOpened, chain_notListed] at hchain
  have hchars := congrArg String.toList (List.cons.inj hchain).1
  have hopening : "opening IMF package ".toList = 'o' :: "pening IMF package ".toList := by rfl
  have hasset : "asset ".toList = 'a' :: "sset ".toList := by rfl
  rw [String.toList_append, String.toList_append, String.toList_append, hopening, hasset] at hchars
  exact absurd (List.cons.inj hchars).1 (by decide)

/-! ## Opening -/

theorem packageOf_eq (disk : Disk) (settings : Settings) (url : String) (w : Signals) :
    packageOf disk settings url w =
      ⟨((occasion disk settings url w).opening.outcome.attempt.mapError (notOpened url)).bind
          fun _ => .ok (occasion disk settings url w).opening.package,
        (occasion disk settings url w).opening.outcome.world⟩ := by
  unfold packageOf
  rfl

theorem result_packageOf_of_maps (accepted : (occasion disk settings url w).Accepts playlist)
    (maps : (occasion disk settings url w).Maps playlist registry) :
    (packageOf disk settings url w).attempt.result =
      .ok (Package.filled settings ⟨playlist, registry, settings.mapUrl url⟩) := by
  obtain ⟨opened, package⟩ := Occasion.opening_of_maps accepted maps
  rw [packageOf_eq, Attempt.result_bind_eq_ok_iff]
  exact ⟨(), Attempt.result_mapError_eq_ok_iff.2 opened, congrArg Except.ok package⟩

theorem result_packageOf_of_firstFailure {e : Package.Error}
    (failure : (occasion disk settings url w).FirstFailure e) :
    (packageOf disk settings url w).attempt.result = .error (notOpened url e) := by
  obtain ⟨failed, -⟩ := Occasion.opening_of_firstFailure failure
  rw [packageOf_eq, Attempt.result_bind_eq_error_iff]
  exact .inl (Attempt.result_mapError_eq_error_iff.2 ⟨e, failed, rfl⟩)

/-- The registry of a package that opens is that of a list. -/
theorem exists_list_of_maps (maps : (occasion disk settings url w).Maps playlist registry) :
    ∃ ls, registry = .ofList ls := by
  obtain ⟨bytes, -, read⟩ := maps
  exact AssetMap.exists_list_of_result_ofBytes read

/-! ## The list -/

/-- What is listed of a package that opens. -/
def listing (playlist : Playlist) (mapUrl : String) (registry : Registry) : PackageListing :=
  ⟨playlist, mapUrl, registry.toList, playlist.trackFiles.filter fun id => !registry.contains id⟩

theorem result_listAssets_of_maps (accepted : (occasion disk settings url w).Accepts playlist)
    (maps : (occasion disk settings url w).Maps playlist registry) :
    (listAssets disk settings url w).attempt.result =
      .ok (listing playlist (settings.mapUrl url) registry) := by
  have opened := result_packageOf_of_maps accepted maps
  unfold listAssets
  rw [Action.bind_def, Action.result_bind_of_ok opened]
  rfl

theorem result_listAssets_of_firstFailure {e : Package.Error}
    (failure : (occasion disk settings url w).FirstFailure e) :
    (listAssets disk settings url w).attempt.result = .error (notOpened url e) := by
  have failed := result_packageOf_of_firstFailure failure
  unfold listAssets
  rw [Action.bind_def, Action.bind_error failed]

/-- There is no list exactly if the package does not open. -/
theorem listAssets_eq_error_iff {f : Failure} :
    (listAssets disk settings url w).attempt.result = .error f ↔
      ∃ e, (occasion disk settings url w).FirstFailure e ∧ notOpened url e = f := by
  constructor
  · intro h
    rcases (occasion disk settings url w).maps_or_firstFailure with
      ⟨playlist, registry, accepted, maps⟩ | ⟨e, failure⟩
    · rw [result_listAssets_of_maps accepted maps] at h
      cases h
    · rw [result_listAssets_of_firstFailure failure] at h
      cases h
      exact ⟨e, failure, rfl⟩
  · intro h
    obtain ⟨e, failure, rfl⟩ := h
    exact result_listAssets_of_firstFailure failure

theorem listAssets_eq_ok_iff {r : PackageListing} :
    (listAssets disk settings url w).attempt.result = .ok r ↔
      ∃ playlist registry, (occasion disk settings url w).Accepts playlist ∧
        (occasion disk settings url w).Maps playlist registry ∧
        listing playlist (settings.mapUrl url) registry = r := by
  constructor
  · intro h
    rcases (occasion disk settings url w).maps_or_firstFailure with
      ⟨playlist, registry, accepted, maps⟩ | ⟨e, failure⟩
    · rw [result_listAssets_of_maps accepted maps] at h
      exact ⟨playlist, registry, accepted, maps, Except.ok.inj h⟩
    · rw [result_listAssets_of_firstFailure failure] at h
      cases h
  · intro h
    obtain ⟨playlist, registry, accepted, maps, rfl⟩ := h
    exact result_listAssets_of_maps accepted maps

/-! ## A single asset -/

/-- A text that is no identifier is refused before anything is done. -/
theorem findAsset_of_not_id {e : Uuid.Error} (parsed : AssetId.parse text = .error e) :
    findAsset disk settings url text w = ⟨⟨[], .error (notAnId text e)⟩, w⟩ := by
  have refused : ((Action.ofAttempt (.ofExcept ((AssetId.parse text).mapError fun e =>
      notAnId text e)) : Action Signals Failure AssetId) w).attempt.result =
        .error (notAnId text e) := by
    rw [parsed]
    rfl
  unfold findAsset
  rw [Action.bind_def]
  exact Action.bind_error refused

/-- An identifier goes on to the package. -/
theorem result_findAsset_of_id (parsed : AssetId.parse text = .ok id) :
    (findAsset disk settings url text w).attempt.result =
      ((packageOf disk settings url).bind (fun package => do
        let registry ← Action.ofAttempt (.ofExcept
          (match package.registry? with
            | some r => .ok r
            | none => .error ⟨["package has no registry"]⟩))
        let l ← Action.ofAttempt (.ofExcept
          ((registry.locate id).mapError fun e => ⟨assetMapChain e⟩))
        Action.ofNoted ⟨package.closeNotes, .ok ()⟩
        pure ⟨id, l.uri⟩) w).attempt.result := by
  have read : ((Action.ofAttempt (.ofExcept ((AssetId.parse text).mapError fun e =>
      notAnId text e)) : Action Signals Failure AssetId) w).attempt.result = .ok id := by
    rw [parsed]
    rfl
  unfold findAsset
  rw [Action.bind_def]
  exact Action.result_bind_of_ok read _

theorem result_findAsset_of_firstFailure (parsed : AssetId.parse text = .ok id)
    {e : Package.Error} (failure : (occasion disk settings url w).FirstFailure e) :
    (findAsset disk settings url text w).attempt.result = .error (notOpened url e) := by
  rw [result_findAsset_of_id parsed,
    Action.bind_error (result_packageOf_of_firstFailure failure)]

/-- In a package that opens the asset is looked up through the index. -/
theorem result_findAsset_of_maps (parsed : AssetId.parse text = .ok id)
    (accepted : (occasion disk settings url w).Accepts playlist)
    (maps : (occasion disk settings url w).Maps playlist registry) :
    (findAsset disk settings url text w).attempt.result =
      match registry.get? id with
      | some l => .ok ⟨id, l.uri⟩
      | none => .error (notListed id) := by
  rw [result_findAsset_of_id parsed,
    Action.result_bind_of_ok (result_packageOf_of_maps accepted maps)]
  -- The registry is there, so what is left is the lookup and the closing of the package.
  change ((Action.ofAttempt (Attempt.ofExcept ((registry.locate id).mapError fun e =>
    (⟨assetMapChain e⟩ : Failure))) :
      Action Signals Failure AssetLocator).bind _ _).attempt.result = _
  cases found : registry.get? id with
  | some l =>
    rw [Registry.locate_eq_ok_iff.2 found]
    rfl
  | none =>
    rw [Registry.locate_eq_error_iff.2 ⟨found, rfl⟩]
    rfl

/-- What is found in a package that opens, told by the list of its assets. -/
theorem result_findAsset_of_listing (parsed : AssetId.parse text = .ok id) {r : PackageListing}
    (listed : (listAssets disk settings url w).attempt.result = .ok r) :
    (findAsset disk settings url text w).attempt.result =
      match r.assets.find? (·.id == id) with
      | some l => .ok ⟨id, l.uri⟩
      | none => .error (notListed id) := by
  obtain ⟨playlist, registry, accepted, maps, rfl⟩ := listAssets_eq_ok_iff.1 listed
  obtain ⟨ls, rfl⟩ := exists_list_of_maps maps
  rw [result_findAsset_of_maps parsed accepted maps, Registry.get?_ofList, listing,
    Registry.toList_ofList]

/-- Nothing is missing from a package that its asset map lists. -/
theorem not_listed_of_mem_missing {r : PackageListing}
    (listed : (listAssets disk settings url w).attempt.result = .ok r) (missing : id ∈ r.missing) :
    r.assets.find? (·.id == id) = none := by
  obtain ⟨playlist, registry, accepted, maps, rfl⟩ := listAssets_eq_ok_iff.1 listed
  obtain ⟨ls, rfl⟩ := exists_list_of_maps maps
  have absent : ¬Registry.Lists ls id := by
    rw [← Registry.contains_ofList_iff]
    simpa using (List.mem_filter.1 missing).2
  rw [listing, Registry.toList_ofList, List.find?_eq_none]
  intro l hl same
  exact absent ⟨l, hl, eq_of_beq same⟩

/-- The two commands agree.  A text that is no identifier is refused with nothing entered in the
journal and the world as it was.  For an identifier there is the same error from both if the
package does not open.  If it opens, the place of the asset is that of the first one in the list
with this identifier, and it is told that the asset is not listed exactly if none has it, as
none has that is said to be missing. -/
theorem findAsset_agrees_with_listAssets (disk : Disk) (settings : Settings) (url text : String)
    (w : Signals) :
    (∀ e, AssetId.parse text = .error e →
      findAsset disk settings url text w = ⟨⟨[], .error (notAnId text e)⟩, w⟩) ∧
    ∀ id, AssetId.parse text = .ok id →
      let found := (findAsset disk settings url text w).attempt.result
      let listed := (listAssets disk settings url w).attempt.result
      (∀ f, listed = .error f ↔
        ∃ e, (occasion disk settings url w).opening.outcome.attempt.result = .error e ∧
          notOpened url e = f) ∧
      (∀ e, found = .error (notOpened url e) ↔ listed = .error (notOpened url e)) ∧
      ∀ r, listed = .ok r →
        (∀ place, found = .ok place ↔ place.id = id ∧
          ∃ l, r.assets.find? (·.id == id) = some l ∧ l.uri = place.uri) ∧
        (∀ f, found = .error f ↔ f = notListed id ∧ ∀ l ∈ r.assets, l.id ≠ id) ∧
        (id ∈ r.missing → found = .error (notListed id)) := by
  refine ⟨fun e parsed => findAsset_of_not_id parsed, ?_⟩
  intro id parsed found listed
  refine ⟨?_, ?_, ?_⟩
  · intro f
    simp only [Occasion.opening_eq_error_iff]
    exact listAssets_eq_error_iff
  · intro e
    rcases (occasion disk settings url w).maps_or_firstFailure with
      ⟨playlist, registry, accepted, maps⟩ | ⟨e', failure⟩
    · have hlisted : listed = .ok _ := result_listAssets_of_maps accepted maps
      have hfound : found = _ := result_findAsset_of_maps parsed accepted maps
      rw [hlisted, hfound]
      cases registry.get? id with
      | some l => simp
      | none =>
        simp only [Except.error.injEq, reduceCtorEq, iff_false]
        exact fun h => notOpened_ne_notListed url e id h.symm
    · have hlisted : listed = .error _ := result_listAssets_of_firstFailure failure
      have hfound : found = .error _ := result_findAsset_of_firstFailure parsed failure
      rw [hlisted, hfound, Except.error.injEq, Except.error.injEq]
  · intro r hlisted
    have hfound : found = _ := result_findAsset_of_listing parsed hlisted
    have hmissing : id ∈ r.missing → r.assets.find? (·.id == id) = none :=
      not_listed_of_mem_missing hlisted
    rw [hfound]
    cases hfirst : r.assets.find? (·.id == id) with
    | some l =>
      have hlists : ¬∀ l ∈ r.assets, l.id ≠ id := by
        intro hnone
        have same := List.find?_some (p := fun l : AssetLocator => l.id == id) hfirst
        exact hnone l (List.mem_of_find?_eq_some hfirst) (eq_of_beq same)
      refine ⟨?_, ?_, ?_⟩
      · intro place
        obtain ⟨placeId, uri⟩ := place
        simp [eq_comm]
      · intro f
        simp [hlists]
      · intro missing
        rw [hmissing missing] at hfirst
        cases hfirst
    | none =>
      have hnone : ∀ l ∈ r.assets, l.id ≠ id := by
        intro l hl same
        exact List.find?_eq_none.1 hfirst l hl (beq_iff_eq.2 same)
      refine ⟨?_, ?_, ?_⟩
      · intro place
        simp
      · intro f
        rw [Except.error.injEq]
        exact ⟨fun same => ⟨same.symm, hnone⟩, fun told => told.1.symm⟩
      · intro _
        rfl

end MasterPackage.CommandLine
