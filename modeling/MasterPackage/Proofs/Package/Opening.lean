import MasterPackage.Package.Basic
import MasterPackage.Proofs.Transport.Journal

/-!
# Opening a package

Opening a package is two loads with a reading after each: of the playlist, and, if that was
accepted, of the asset map that belongs to it.  What becomes of the package is told here by
the outcomes of these four alone, whatever the host, the reader and the settings are.

* `Occasion.playlistLoad`, `Occasion.mapLoad`: the two loads.
* `Occasion.Accepts`, `Occasion.Maps`, `Occasion.FirstFailure`: how the stages can end.
* `Occasion.opening_eq_error_iff`: the error is that of the first stage that fails.
* `Occasion.opening_by_stages`: the streams that are asked for and closed, the outcome, and
  the package.
-/

namespace MasterPackage.Package

open Transport

variable {ω σ κ : Type}

theorem openPlaylist_eq (h : Host ω σ) (reader : PlaylistReader κ) (settings : Settings)
    (url : String) (supplied : Option σ) :
    openPlaylist h reader settings url supplied =
      Action.announced ⟨.debug, "loading CPL", [("url", url)]⟩
        (h.load settings.limits settings.streamOptions url supplied) .load fun bytes =>
          Action.reading (reader.read bytes url) fun c =>
            ⟨.info, "parsed IMF CPL", [("cpl", (reader.id c).text), ("url", url)]⟩ := rfl

theorem atUrl_eq (h : Host ω σ) (limits : Limits) (options : Options) (url : String)
    (supplied : Option σ) (composition : Option CompositionId) :
    AssetMap.atUrl h limits options url supplied composition =
      Action.announced (AssetMap.loadingNote url) (h.load limits options url supplied) .load
        fun bytes =>
          Action.reading
            (AssetMap.ofBytes ⟨url, Location.directory url, composition, h.room⟩ bytes)
            fun r => AssetMap.parsedNote url (Location.directory url) r.size := rfl

theorem openAssetMap_eq (h : Host ω σ) (reader : PlaylistReader κ) (settings : Settings)
    (url : String) (playlist : κ) :
    openAssetMap h reader settings url playlist =
      Action.announced
        ⟨.debug, "loading asset map",
          [("cpl", (reader.id playlist).text), ("url", settings.mapUrl url)]⟩
        (AssetMap.atUrl h settings.limits settings.streamOptions (settings.mapUrl url) none
          (some (reader.id playlist))) .assetMap
        fun registry => pure ⟨playlist, registry, settings.mapUrl url⟩ := rfl

/-- A package that holds what its documents came to. -/
def filled (settings : Settings) (c : Contents κ) : Package κ :=
  ⟨settings, .ready, some c.playlist, some c.registry, some c.mapUrl⟩

/-- A package that could not be opened. -/
def failed (settings : Settings) : Package κ := ⟨settings, .failed, none, none, none⟩

/-- What it takes to open a package: the host and its world, the reader, the settings, the
location of the playlist, and the stream that may be supplied for it. -/
structure Occasion (ω σ κ : Type) where
  host : Host ω σ
  reader : PlaylistReader κ
  settings : Settings
  url : String
  supplied : Option σ
  world : ω

namespace Occasion

/-- A package that was not opened yet is opened. -/
def opening (o : Occasion ω σ κ) : Opening ω κ :=
  (unopened o.settings).openAt o.host o.reader o.url o.supplied o.world

/-- Everything that is entered while the package is opened. -/
def journal (o : Occasion ω σ κ) : List Entry := o.opening.outcome.attempt.record

/-- The location of the asset map. -/
def mapUrl (o : Occasion ω σ κ) : String := o.settings.mapUrl o.url

/-- The load of the playlist. -/
def playlistLoad (o : Occasion ω σ κ) : Outcome ω LoadError (List UInt8) :=
  o.host.load o.settings.limits o.settings.streamOptions o.url o.supplied o.world

/-- The load of the asset map, in the world that the load of the playlist leaves. -/
def mapLoad (o : Occasion ω σ κ) : Outcome ω LoadError (List UInt8) :=
  o.host.load o.settings.limits o.settings.streamOptions o.mapUrl none o.playlistLoad.world

/-- The playlist is loaded, and the reader makes this of its bytes. -/
def Accepts (o : Occasion ω σ κ) (playlist : κ) : Prop :=
  ∃ bytes, o.playlistLoad.attempt.result = .ok bytes ∧
    (o.reader.read bytes o.url).result = .ok playlist

/-- What an asset map is read for, if it belongs to a playlist. -/
def context (o : Occasion ω σ κ) (playlist : κ) : AssetMap.Context :=
  ⟨o.mapUrl, Location.directory o.mapUrl, some (o.reader.id playlist), o.host.room⟩

/-- The asset map is loaded, and its bytes make this registry. -/
def Maps (o : Occasion ω σ κ) (playlist : κ) (registry : AssetMap.Registry) : Prop :=
  ∃ bytes, o.mapLoad.attempt.result = .ok bytes ∧
    (AssetMap.ofBytes (o.context playlist) bytes).result = .ok registry

/-- The first stage that fails, and its error. -/
inductive FirstFailure (o : Occasion ω σ κ) : Error → Prop
  | playlistLoad {f : LoadError} : o.playlistLoad.attempt.result = .error f →
    FirstFailure o (.load f)
  | playlist {bytes : List UInt8} {e : Error} : o.playlistLoad.attempt.result = .ok bytes →
    (o.reader.read bytes o.url).result = .error e → FirstFailure o e
  | mapLoad {playlist : κ} {f : LoadError} : o.Accepts playlist →
    o.mapLoad.attempt.result = .error f → FirstFailure o (.assetMap (.load f))
  | map {playlist : κ} {bytes : List UInt8} {f : AssetMap.Error} : o.Accepts playlist →
    o.mapLoad.attempt.result = .ok bytes →
    (AssetMap.ofBytes (o.context playlist) bytes).result = .error f → FirstFailure o (.assetMap f)

variable {o : Occasion ω σ κ} {playlist : κ} {e : Error}

/-! ## The stages -/

/-- The stage of the playlist. -/
def playlistStage (o : Occasion ω σ κ) : Outcome ω Error κ :=
  openPlaylist o.host o.reader o.settings o.url o.supplied o.world

theorem world_playlistStage (o : Occasion ω σ κ) :
    o.playlistStage.world = o.playlistLoad.world := by
  rw [playlistStage, openPlaylist_eq]
  exact Action.world_announced fun bytes => Action.onlyNotes_reading _ _

theorem moves_playlistStage (o : Occasion ω σ κ) :
    Entry.moves o.playlistStage.attempt.record =
      o.host.loadMoves o.settings.streamOptions o.url o.supplied o.world := by
  rw [playlistStage, openPlaylist_eq,
    Action.moves_announced fun bytes => Action.onlyNotes_reading _ _, Host.moves_load]

theorem playlistStage_eq_ok_iff :
    o.playlistStage.attempt.result = .ok playlist ↔ o.Accepts playlist := by
  rw [playlistStage, openPlaylist_eq, Action.result_announced_eq_ok_iff]
  simp only [Action.result_reading]
  rfl

theorem playlistStage_eq_error_iff :
    o.playlistStage.attempt.result = .error e ↔
      (∃ f, o.playlistLoad.attempt.result = .error f ∧ .load f = e) ∨
        ∃ bytes, o.playlistLoad.attempt.result = .ok bytes ∧
          (o.reader.read bytes o.url).result = .error e := by
  rw [playlistStage, openPlaylist_eq, Action.result_announced_eq_error_iff]
  simp only [Action.result_reading]
  rfl

/-- The stage of the asset map, after that of the playlist. -/
def mapStage (o : Occasion ω σ κ) (playlist : κ) : Outcome ω Error (Contents κ) :=
  openAssetMap o.host o.reader o.settings o.url playlist o.playlistLoad.world

theorem moves_mapStage (o : Occasion ω σ κ) (playlist : κ) :
    Entry.moves (o.mapStage playlist).attempt.record =
      o.host.loadMoves o.settings.streamOptions o.mapUrl none o.playlistLoad.world := by
  rw [mapStage, openAssetMap_eq, Action.moves_announced fun r => Action.onlyNotes_pure _,
    atUrl_eq, Action.moves_announced fun bytes => Action.onlyNotes_reading _ _, Host.moves_load]
  rfl

theorem mapStage_eq_ok_iff {c : Contents κ} :
    (o.mapStage playlist).attempt.result = .ok c ↔
      ∃ registry, o.Maps playlist registry ∧ ⟨playlist, registry, o.mapUrl⟩ = c := by
  rw [mapStage, openAssetMap_eq, Action.result_announced_eq_ok_iff]
  simp only [atUrl_eq, Action.result_announced_eq_ok_iff, Action.result_reading,
    Action.result_pure, Except.ok.injEq]
  rfl

theorem mapStage_eq_error_iff :
    (o.mapStage playlist).attempt.result = .error e ↔
      (∃ f, o.mapLoad.attempt.result = .error f ∧ .assetMap (.load f) = e) ∨
        ∃ bytes f, o.mapLoad.attempt.result = .ok bytes ∧
          (AssetMap.ofBytes (o.context playlist) bytes).result = .error f ∧ .assetMap f = e := by
  rw [mapStage, openAssetMap_eq, Action.result_announced_eq_error_iff]
  simp only [atUrl_eq, Action.result_announced_eq_error_iff, Action.result_reading,
    Action.result_pure, reduceCtorEq, and_false, exists_false, or_false]
  constructor
  · rintro ⟨f, ⟨f', load, rfl⟩ | ⟨bytes, load, read⟩, rfl⟩
    · exact .inl ⟨f', load, rfl⟩
    · exact .inr ⟨bytes, f, load, read, rfl⟩
  · rintro (⟨f', load, rfl⟩ | ⟨bytes, f, load, read, rfl⟩)
    · exact ⟨_, .inl ⟨f', load, rfl⟩, rfl⟩
    · exact ⟨f, .inr ⟨bytes, load, read⟩, rfl⟩

/-! ## Both documents -/

/-- Both stages, one after the other. -/
def documents (o : Occasion ω σ κ) : Outcome ω (State × Error) (Contents κ) :=
  openDocuments o.host o.reader o.settings o.url o.supplied o.world

theorem documents_of_accepts (accepted : o.Accepts playlist) :
    o.documents =
      ⟨⟨o.playlistStage.attempt.record ++ (o.mapStage playlist).attempt.record,
        (o.mapStage playlist).attempt.result.mapError fun e => (.parsingAssetMap, e)⟩,
        (o.mapStage playlist).world⟩ := by
  have read : ((openPlaylist o.host o.reader o.settings o.url o.supplied).mapError
      (fun e => (State.parsingPlaylist, e)) o.world).attempt.result = .ok playlist :=
    Attempt.result_mapError_eq_ok_iff.2 (playlistStage_eq_ok_iff.2 accepted)
  rw [documents, openDocuments, Action.bind_def, Action.bind_ok read, mapStage,
    ← world_playlistStage]
  rfl

theorem documents_of_error (failed : o.playlistStage.attempt.result = .error e) :
    o.documents =
      ⟨⟨o.playlistStage.attempt.record, .error (.parsingPlaylist, e)⟩, o.playlistStage.world⟩ := by
  have read : ((openPlaylist o.host o.reader o.settings o.url o.supplied).mapError
      (fun e => (State.parsingPlaylist, e)) o.world).attempt.result =
        .error (.parsingPlaylist, e) :=
    Attempt.result_mapError_eq_error_iff.2 ⟨e, failed, rfl⟩
  rw [documents, openDocuments, Action.bind_def, Action.bind_error read]
  rfl

theorem opening_eq (o : Occasion ω σ κ) :
    o.opening =
      match o.documents.attempt.result with
      | .ok c =>
        ⟨⟨⟨o.documents.attempt.record ++ [.note (readyNote o.reader c)], .ok ()⟩,
          o.documents.world⟩, filled o.settings c⟩
      | .error (stage, e) =>
        ⟨⟨⟨o.documents.attempt.record ++ [.note (failedNote o.url stage e)], .error e⟩,
          o.documents.world⟩, failed o.settings⟩ := rfl

/-- In the end a note is made of how it went. -/
theorem journal_eq (o : Occasion ω σ κ) :
    ∃ remark, o.journal = o.documents.attempt.record ++ [.note remark] := by
  rw [journal, opening_eq]
  split
  · exact ⟨_, rfl⟩
  · exact ⟨_, rfl⟩

theorem moves_journal (o : Occasion ω σ κ) :
    Entry.moves o.journal = Entry.moves o.documents.attempt.record := by
  obtain ⟨remark, hjournal⟩ := o.journal_eq
  rw [hjournal, Entry.moves_append]
  exact List.append_nil _

/-- The moves for the playlist. -/
def playlistMoves (o : Occasion ω σ κ) : List Entry :=
  o.host.loadMoves o.settings.streamOptions o.url o.supplied o.world

/-- The moves for the asset map. -/
def mapMoves (o : Occasion ω σ κ) : List Entry :=
  o.host.loadMoves o.settings.streamOptions o.mapUrl none o.playlistLoad.world

/-- What is asked for on behalf of the playlist. -/
def asked (o : Occasion ω σ κ) : List (String × Options) :=
  if o.supplied.isNone then [(o.url, o.settings.streamOptions)] else []

theorem openings_playlistMoves (o : Occasion ω σ κ) : Entry.openings o.playlistMoves = o.asked :=
  Host.openings_loadMoves ..

theorem moves_of_accepts (accepted : o.Accepts playlist) :
    Entry.moves o.journal = o.playlistMoves ++ o.mapMoves := by
  rw [moves_journal, documents_of_accepts accepted, Entry.moves_append, moves_playlistStage,
    moves_mapStage]
  rfl

theorem moves_of_not_accepts (refused : ∀ playlist, ¬ o.Accepts playlist) :
    Entry.moves o.journal = o.playlistMoves := by
  cases hstage : o.playlistStage.attempt.result with
  | ok playlist => exact absurd (playlistStage_eq_ok_iff.1 hstage) (refused playlist)
  | error e =>
    rw [moves_journal, documents_of_error hstage, moves_playlistStage]
    rfl

theorem inTurns_journal (o : Occasion ω σ κ) : Entry.InTurns (Entry.moves o.journal) := by
  have first : Entry.InTurns o.playlistMoves := Host.inTurns_loadMoves ..
  by_cases accepted : ∃ playlist, o.Accepts playlist
  · obtain ⟨playlist, accepted⟩ := accepted
    rw [moves_of_accepts accepted]
    exact first.append (Host.inTurns_loadMoves ..)
  · rw [moves_of_not_accepts (not_exists.1 accepted)]
    exact first

/-! ## What becomes of the package -/

theorem firstFailure_iff :
    o.FirstFailure e ↔
      o.playlistStage.attempt.result = .error e ∨
        ∃ playlist, o.Accepts playlist ∧ (o.mapStage playlist).attempt.result = .error e := by
  simp only [playlistStage_eq_error_iff, mapStage_eq_error_iff]
  constructor
  · intro h
    cases h with
    | playlistLoad load => exact .inl (.inl ⟨_, load, rfl⟩)
    | playlist load read => exact .inl (.inr ⟨_, load, read⟩)
    | mapLoad accepted load => exact .inr ⟨_, accepted, .inl ⟨_, load, rfl⟩⟩
    | map accepted load read => exact .inr ⟨_, accepted, .inr ⟨_, _, load, read, rfl⟩⟩
  · rintro ((⟨f, load, rfl⟩ | ⟨bytes, load, read⟩) |
      ⟨playlist, accepted, ⟨f, load, rfl⟩ | ⟨bytes, f, load, read, rfl⟩⟩)
    · exact .playlistLoad load
    · exact .playlist load read
    · exact .mapLoad accepted load
    · exact .map accepted load read

theorem opening_of_maps {registry : AssetMap.Registry} (accepted : o.Accepts playlist)
    (maps : o.Maps playlist registry) :
    o.opening.outcome.attempt.result = .ok () ∧
      o.opening.package = filled o.settings ⟨playlist, registry, o.mapUrl⟩ := by
  have read : o.documents.attempt.result = .ok ⟨playlist, registry, o.mapUrl⟩ := by
    rw [documents_of_accepts accepted]
    exact Attempt.mapError_eq_ok_iff.2 (mapStage_eq_ok_iff.2 ⟨registry, maps, rfl⟩)
  rw [opening_eq, read]
  exact ⟨rfl, rfl⟩

theorem opening_of_firstFailure (failure : o.FirstFailure e) :
    o.opening.outcome.attempt.result = .error e ∧ o.opening.package = failed o.settings := by
  have read : ∃ stage, o.documents.attempt.result = .error (stage, e) := by
    rcases firstFailure_iff.1 failure with hstage | ⟨playlist, accepted, hstage⟩
    · rw [documents_of_error hstage]
      exact ⟨_, rfl⟩
    · rw [documents_of_accepts accepted]
      exact ⟨_, Attempt.mapError_eq_error_iff.2 ⟨e, hstage, rfl⟩⟩
  obtain ⟨stage, read⟩ := read
  rw [opening_eq, read]
  exact ⟨rfl, rfl⟩

/-- The stages cannot but end in one of the two ways. -/
theorem maps_or_firstFailure (o : Occasion ω σ κ) :
    (∃ playlist registry, o.Accepts playlist ∧ o.Maps playlist registry) ∨
      ∃ e, o.FirstFailure e := by
  cases hfirst : o.playlistStage.attempt.result with
  | error e => exact .inr ⟨e, firstFailure_iff.2 (.inl hfirst)⟩
  | ok playlist =>
    have accepted := playlistStage_eq_ok_iff.1 hfirst
    cases hsecond : (o.mapStage playlist).attempt.result with
    | error e => exact .inr ⟨e, firstFailure_iff.2 (.inr ⟨playlist, accepted, hsecond⟩)⟩
    | ok c =>
      obtain ⟨registry, maps, -⟩ := mapStage_eq_ok_iff.1 hsecond
      exact .inl ⟨playlist, registry, accepted, maps⟩

theorem opening_eq_ok_iff :
    o.opening.outcome.attempt.result = .ok () ↔
      ∃ playlist registry, o.Accepts playlist ∧ o.Maps playlist registry := by
  constructor
  · intro h
    rcases o.maps_or_firstFailure with opens | ⟨e, failure⟩
    · exact opens
    · rw [(opening_of_firstFailure failure).1] at h
      cases h
  · rintro ⟨playlist, registry, accepted, maps⟩
    exact (opening_of_maps accepted maps).1

theorem opening_eq_error_iff :
    o.opening.outcome.attempt.result = .error e ↔ o.FirstFailure e := by
  constructor
  · intro h
    rcases o.maps_or_firstFailure with ⟨playlist, registry, accepted, maps⟩ | ⟨e', failure⟩
    · rw [(opening_of_maps accepted maps).1] at h
      cases h
    · rw [(opening_of_firstFailure failure).1] at h
      cases h
      exact failure
  · exact fun failure => (opening_of_firstFailure failure).1

theorem Accepts.unique {a b : κ} (ha : o.Accepts a) (hb : o.Accepts b) : a = b :=
  Except.ok.inj ((playlistStage_eq_ok_iff.2 ha).symm.trans (playlistStage_eq_ok_iff.2 hb))

theorem opening_eq_error_iff_of_accepts (accepted : o.Accepts playlist) :
    o.opening.outcome.attempt.result = .error e ↔
      (o.mapStage playlist).attempt.result = .error e := by
  rw [opening_eq_error_iff, firstFailure_iff, playlistStage_eq_ok_iff.2 accepted]
  constructor
  · intro failure
    rcases failure with impossible | ⟨playlist', accepted', failed⟩
    · cases impossible
    · rw [accepted.unique accepted']
      exact failed
  · intro failed
    exact .inr ⟨playlist, accepted, failed⟩

theorem opening_eq_error_iff_of_not_accepts (refused : ∀ playlist, ¬ o.Accepts playlist) :
    o.opening.outcome.attempt.result = .error e ↔ o.playlistStage.attempt.result = .error e := by
  rw [opening_eq_error_iff, firstFailure_iff]
  constructor
  · intro failure
    rcases failure with failed | ⟨playlist, accepted, -⟩
    · exact failed
    · exact absurd accepted (refused playlist)
  · exact .inl

/-! ## The opening as a whole -/

/-- Opening a package asks for a stream of the playlist unless one was supplied, and then for
one of the asset map exactly if the playlist was accepted, each time with the options of the
settings.  Whatever the host, the reader and the documents do, each stream that was to be had
is closed once, before there is another, and one that was supplied is left alone.  The package
opens exactly if both documents are loaded and read, and then it is ready and holds what they
came to; otherwise the first failure is the error, and the package has failed and holds
nothing. -/
theorem opening_by_stages (o : Occasion ω σ κ) :
    ((∀ playlist, o.Accepts playlist →
        Entry.openings o.journal = o.asked ++ [(o.mapUrl, o.settings.streamOptions)] ∧
          Entry.moves o.journal = o.playlistMoves ++ o.mapMoves) ∧
      ((∀ playlist, ¬ o.Accepts playlist) →
        Entry.openings o.journal = o.asked ∧ Entry.moves o.journal = o.playlistMoves) ∧
      (o.supplied.isSome = true → o.playlistMoves = []) ∧
      Entry.InTurns (Entry.moves o.journal)) ∧
    (o.opening.outcome.attempt.result = .ok () ↔
      ∃ playlist registry, o.Accepts playlist ∧ o.Maps playlist registry) ∧
    (∀ playlist registry, o.Accepts playlist → o.Maps playlist registry →
      o.opening.package =
        ⟨o.settings, .ready, some playlist, some registry, some (o.settings.mapUrl o.url)⟩) ∧
    (∀ e, o.opening.outcome.attempt.result = .error e ↔ o.FirstFailure e) ∧
    ∀ e, o.FirstFailure e → o.opening.package = ⟨o.settings, .failed, none, none, none⟩ := by
  refine ⟨⟨fun playlist accepted => ⟨?_, moves_of_accepts accepted⟩,
    fun refused => ⟨?_, moves_of_not_accepts refused⟩, fun hsupplied => ?_, o.inTurns_journal⟩,
    opening_eq_ok_iff, fun _ _ accepted maps => (opening_of_maps accepted maps).2,
    fun _ => opening_eq_error_iff, fun _ failure => (opening_of_firstFailure failure).2⟩
  · rw [← Entry.openings_moves, moves_of_accepts accepted, Entry.openings_append,
      openings_playlistMoves, mapMoves, Host.openings_loadMoves]
    rfl
  · rw [← Entry.openings_moves, moves_of_not_accepts refused, openings_playlistMoves]
  · obtain ⟨s, hs⟩ := Option.isSome_iff_exists.1 hsupplied
    rw [playlistMoves, hs]
    rfl

end Occasion

end MasterPackage.Package
