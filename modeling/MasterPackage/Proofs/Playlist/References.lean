import Mathlib.Data.List.Basic
import Mathlib.Data.List.Induction
import Mathlib.Data.List.Nodup
import MasterPackage.Package.Basic
import MasterPackage.Proofs.AssetMap.Duplicates
import MasterPackage.Proofs.Markup.Outermost
import MasterPackage.Proofs.Markup.Queries
import MasterPackage.Proofs.Markup.RoundTrip
import MasterPackage.Proofs.Uuid.Grammar

/-!
# References of playlists

A playlist refers to a track file wherever an element says so, at any depth, as long as that is
not inside of another such element.  Its track files are what these elements refer to, in document
order, each where it comes first.

* `Playlist.collect_eq_foldlM`: collecting goes through the outermost references, one by one.
* `Playlist.result_gatherAll_eq_ok_iff`, `Playlist.result_gatherAll_eq_error_iff`: what is
  gathered from references, and the first that cannot be read.
* `Playlist.result_ofRoot_eq_ok_iff`, `Playlist.result_ofRoot_eq_error_iff`: a whole playlist.
* `Playlist.read_by_references`: the same for a document, by the reader of a package.
-/

namespace MasterPackage.Playlist

open AssetMap.Registry (eraseDups_concat)
open Markup (Element)

/-! ## First occurrences -/

section

variable {ids : List AssetId}

/-- Without its repetitions, a list keeps the order in which its items come first. -/
theorem pairwise_eraseDups (ids : List AssetId) :
    ids.eraseDups.Pairwise fun a b => ids.idxOf a < ids.idxOf b := by
  induction ids using List.reverseRecOn with
  | nil => exact .nil
  | append_singleton ids id ih =>
    have before :
        ids.eraseDups.Pairwise fun a b => (ids ++ [id]).idxOf a < (ids ++ [id]).idxOf b := by
      refine ih.imp_of_mem ?_
      intro a b ha hb earlier
      rw [List.idxOf_append_of_mem (List.mem_eraseDups.1 ha),
        List.idxOf_append_of_mem (List.mem_eraseDups.1 hb)]
      exact earlier
    rw [eraseDups_concat]
    split
    · exact before
    · next fresh =>
      rw [List.pairwise_append]
      refine ⟨before, List.pairwise_singleton _ _, ?_⟩
      intro a ha b hb
      rw [List.mem_singleton.1 hb, List.idxOf_append_of_mem (List.mem_eraseDups.1 ha),
        List.idxOf_append_of_notMem fresh]
      have := List.idxOf_lt_length_of_mem (List.mem_eraseDups.1 ha)
      omega

theorem nodup_eraseDups (ids : List AssetId) : ids.eraseDups.Nodup :=
  (pairwise_eraseDups ids).imp fun earlier same => Nat.ne_of_lt earlier (congrArg ids.idxOf same)

end

/-! ## Gathering references -/

/-- What an element refers to. -/
def reference (e : Element) : Except Uuid.Error AssetId := AssetId.parse (Text.trimmed e.text)

/-- However an identifier is spelled, the element refers to it, and otherwise it does not. -/
theorem reference_eq_ok_iff {e : Element} {id : AssetId} :
    reference e = .ok id ↔ Uuid.Spells e.text id.uuid := Uuid.parse_asset_trimmed_eq_ok_iff

/-- A spelling of an identifier is not blank, so an element that has it says something. -/
theorem says_of_spells {e child : Element} {name : String} {u : Uuid}
    (first : e.First name child) (spells : Uuid.Spells child.text u) :
    e.Says name (Text.trimmed child.text) := by
  obtain ⟨s, text⟩ := spells
  refine ⟨child, first, ?_, rfl⟩
  by_contra blank
  have empty : Text.trim s.chars = [] := by
    rw [Text.trim_eq_nil_iff]
    rw [text, String.toList_ofList] at blank
    simpa using blank
  rw [s.trim_chars] at empty
  exact s.core_ne_nil empty

/-- Adds what one element refers to. -/
def gather (found : List AssetId) (e : Element) : Attempt Note Flaw (List AssetId) :=
  (Attempt.ofExcept (readReference e)).bind fun id => refer found id

variable {e root : Element} {es above : List Element} {before found : List AssetId} {id : AssetId}
  {flaw : Flaw}

theorem readReference_eq (e : Element) :
    readReference e = (reference e).mapError .badTrackFile := by
  rw [readReference, Element.trimmedText?_getD, reference]

mutual

/-- Collecting from an element is gathering from the outermost references in it. -/
theorem collectFrom_eq_foldlM {above : List Element} (free : ¬Element.Among "TrackFileId" above)
    (found : List AssetId) : (e : Element) →
      collectFrom found e =
        (Element.outermostAmong "TrackFileId" (e.places above)).foldlM gather found
  | ⟨name, text, children⟩ => by
    rw [collectFrom]
    split
    · next named =>
      rw [Element.outermostAmong_places_of_named free named, List.foldlM_cons]
      exact (bind_pure (gather found ⟨name, text, children⟩)).symm
    · next other =>
      have other : Element.isNamed ⟨name, text, children⟩ "TrackFileId" = false := by
        simpa using other
      rw [Element.outermostAmong_places_of_other other]
      exact collect_eq_foldlM (Element.not_among_cons free other) found children

theorem collect_eq_foldlM {above : List Element} (free : ¬Element.Among "TrackFileId" above)
    (found : List AssetId) : (es : List Element) →
      collect found es =
        (Element.outermostAmong "TrackFileId" (Element.placesAll above es)).foldlM gather found
  | [] => rfl
  | e :: es => by
    rw [collect, Element.placesAll, Element.outermostAmong_append, List.foldlM_append,
      collectFrom_eq_foldlM free found e, Attempt.bind_def]
    congr 1
    funext found
    exact collect_eq_foldlM free found es

end

/-- What was gathered before a reference is taken with it, in the order of first occurrences. -/
theorem result_gather_eq_ok_iff :
    (gather before.eraseDups e).result = .ok found ↔
      ∃ id, reference e = .ok id ∧ (before ++ [id]).eraseDups = found := by
  have noted (id : AssetId) :
      (refer before.eraseDups id).result = .ok (before ++ [id]).eraseDups := by
    rw [eraseDups_concat, refer]
    simp only [List.mem_eraseDups]
    split
    · rfl
    · rfl
  simp only [gather, Attempt.result_bind_eq_ok_iff, Attempt.ofExcept, readReference_eq,
    Attempt.mapError_eq_ok_iff, noted, Except.ok.injEq]

theorem result_gather_eq_error_iff :
    (gather found e).result = .error flaw ↔
      ∃ f, reference e = .error f ∧ .badTrackFile f = flaw := by
  have noted (id : AssetId) : (refer found id).result ≠ .error flaw := by
    rw [refer]
    split
    · nofun
    · nofun
  simp only [gather, Attempt.result_bind_eq_error_iff, Attempt.ofExcept, readReference_eq,
    Attempt.mapError_eq_error_iff, noted, and_false, exists_false, or_false]

/-- A reference is gathered if it can be read, whatever was found before. -/
theorem exists_gather_iff (found : List AssetId) (e : Element) :
    (∃ more, (gather found e).result = .ok more) ↔ ∃ id, reference e = .ok id := by
  cases hread : reference e with
  | error f =>
    have failed : (gather found e).result = .error (.badTrackFile f) :=
      result_gather_eq_error_iff.2 ⟨f, hread, rfl⟩
    simp [failed]
  | ok id =>
    cases hgather : (gather found e).result with
    | error flaw =>
      obtain ⟨f, bad, -⟩ := result_gather_eq_error_iff.1 hgather
      rw [hread] at bad
      cases bad
    | ok more => simp

/-- All references are gathered if all of them can be read, and then each where it comes
first. -/
theorem result_gatherAll_eq_ok_iff :
    (es.foldlM gather before.eraseDups).result = .ok found ↔
      ∃ ids, es.map reference = ids.map .ok ∧ (before ++ ids).eraseDups = found := by
  induction es generalizing before with
  | nil =>
    rw [List.foldlM_nil, Attempt.pure_def]
    constructor
    · intro h
      exact ⟨[], rfl, by simpa using h⟩
    · intro listed
      obtain ⟨ids, none, rfl⟩ := listed
      cases ids with
      | nil => rw [List.append_nil]
      | cons id ids => cases none
  | cons e es ih =>
    rw [List.foldlM_cons, Attempt.bind_def, Attempt.result_bind_eq_ok_iff]
    simp only [result_gather_eq_ok_iff]
    constructor
    · intro gathered
      obtain ⟨_, ⟨id, refers, rfl⟩, rest⟩ := gathered
      obtain ⟨ids, others, rfl⟩ := ih.1 rest
      refine ⟨id :: ids, ?_, by rw [List.append_assoc, List.singleton_append]⟩
      rw [List.map_cons, List.map_cons, refers, others]
    · intro listed
      obtain ⟨ids, all, rfl⟩ := listed
      cases ids with
      | nil => cases all
      | cons id ids =>
        rw [List.map_cons, List.map_cons, List.cons.injEq] at all
        refine ⟨_, ⟨id, all.1, rfl⟩, ih.2 ⟨ids, all.2, ?_⟩⟩
        rw [List.append_assoc, List.singleton_append]

/-- Otherwise the error is that of the first which cannot be read. -/
theorem result_gatherAll_eq_error_iff :
    (es.foldlM gather found).result = .error flaw ↔
      ∃ before e after f, es = before ++ e :: after ∧
        (∀ other ∈ before, ∃ id, reference other = .ok id) ∧ reference e = .error f ∧
        .badTrackFile f = flaw := by
  induction es generalizing found with
  | nil => simp [Attempt.pure_def]
  | cons e es ih =>
    rw [List.foldlM_cons, Attempt.bind_def, Attempt.result_bind_eq_error_iff,
      result_gather_eq_error_iff]
    constructor
    · intro failed
      rcases failed with ⟨f, bad, rfl⟩ | ⟨more, read, later⟩
      · exact ⟨[], e, es, f, rfl, nofun, bad, rfl⟩
      · obtain ⟨before, other, after, f, rfl, good, bad, rfl⟩ := ih.1 later
        have first : ∃ id, reference e = .ok id := (exists_gather_iff found e).1 ⟨more, read⟩
        exact ⟨e :: before, other, after, f, rfl, List.forall_mem_cons.2 ⟨first, good⟩, bad, rfl⟩
    · intro first
      obtain ⟨before, other, after, f, split, good, bad, rfl⟩ := first
      cases before with
      | nil =>
        rw [List.nil_append, List.cons.injEq] at split
        obtain ⟨rfl, rfl⟩ := split
        exact .inl ⟨f, bad, rfl⟩
      | cons first before =>
        rw [List.cons_append, List.cons.injEq] at split
        obtain ⟨rfl, rfl⟩ := split
        obtain ⟨now, others⟩ := List.forall_mem_cons.1 good
        obtain ⟨more, read⟩ := (exists_gather_iff found e).2 now
        exact .inr ⟨more, read, ih.2 ⟨before, other, after, f, rfl, others, bad, rfl⟩⟩

/-! ## Playlists -/

/-- The identifier of a composition. -/
def Identified (e : Element) (id : CompositionId) : Prop :=
  ∃ text, e.Says "Id" text ∧ CompositionId.parse text = .ok id

/-- The elements of a playlist that refer to track files, in document order. -/
def references (root : Element) : List Element := root.outermost "TrackFileId"

/-- The track files that a playlist refers to, in document order and with repetitions. -/
def RefersTo (root : Element) (ids : List AssetId) : Prop :=
  (references root).map reference = ids.map .ok

/-- The first thing wrong with a playlist: its root, its identifier, or the first of its
references that cannot be read. -/
inductive FirstFlaw : Option Element → Flaw → Prop
  | noRoot : FirstFlaw none .noRoot
  | otherRoot {root : Element} :
    root.isNamed "CompositionPlaylist" = false → FirstFlaw (some root) (.otherRoot root.name)
  | noId {root : Element} :
    root.isNamed "CompositionPlaylist" = true → root.Silent "Id" → FirstFlaw (some root) .noId
  | badId {root : Element} {text : String} {f : Uuid.Error} :
    root.isNamed "CompositionPlaylist" = true → root.Says "Id" text →
    CompositionId.parse text = .error f → FirstFlaw (some root) (.badId f)
  | badTrackFile {root e : Element} {id : CompositionId} {before after : List Element}
    {f : Uuid.Error} :
    root.isNamed "CompositionPlaylist" = true → Identified root id →
    references root = before ++ e :: after →
    (∀ other ∈ before, ∃ id, reference other = .ok id) → reference e = .error f →
    FirstFlaw (some root) (.badTrackFile f)

variable {tree : Option Element} {p : Playlist}

theorem readRoot_eq_ok_iff {id : CompositionId} :
    readRoot tree = .ok (root, id) ↔
      tree = some root ∧ root.isNamed "CompositionPlaylist" = true ∧ Identified root id := by
  constructor
  · intro h
    cases tree with
    | none => cases h
    | some e =>
      simp only [readRoot] at h
      split at h
      · next named =>
        split at h
        · cases h
        · next text told =>
          split at h
          · next parsed =>
            cases h
            exact ⟨rfl, named, text, Element.textOf?_eq_some_iff.1 told, parsed⟩
          · cases h
      · cases h
  · intro inOrder
    obtain ⟨rfl, named, text, told, parsed⟩ := inOrder
    simp [readRoot, named, Element.textOf?_eq_some_iff.2 told, parsed]

theorem firstFlaw_of_readRoot (h : readRoot tree = .error flaw) : FirstFlaw tree flaw := by
  cases tree with
  | none =>
    cases h
    exact .noRoot
  | some e =>
    simp only [readRoot] at h
    split at h
    · next named =>
      split at h
      · next silent =>
        cases h
        exact .noId named (Element.textOf?_eq_none_iff.1 silent)
      · next text told =>
        split at h
        · cases h
        · next f bad =>
          cases h
          exact .badId named (Element.textOf?_eq_some_iff.1 told) bad
    · next other =>
      cases h
      exact .otherRoot (by simpa using other)

/-- The references of a playlist are all below its root. -/
theorem collect_children (named : root.isNamed "CompositionPlaylist" = true) :
    collect [] root.children = (references root).foldlM gather [] := by
  have other : root.isNamed "TrackFileId" = false := Element.isNamed_of_isNamed named "TrackFileId"
  have free : ¬Element.Among "TrackFileId" [] := by
    intro among
    obtain ⟨e, he, -⟩ := among
    cases he
  rw [references, Element.outermost, Element.outermostAmong_places_of_other other,
    collect_eq_foldlM (Element.not_among_cons free other)]

/-- A playlist is read if its root, its identifier and all of its references are in order. -/
theorem result_ofRoot_eq_ok_iff :
    (ofRoot tree).result = .ok p ↔
      ∃ root ids, tree = some root ∧ root.isNamed "CompositionPlaylist" = true ∧
        Identified root p.id ∧ RefersTo root ids ∧
        p = ⟨p.id, root.textOf? "ContentTitle", ids.eraseDups⟩ := by
  have gathers {root : Element} (named : root.isNamed "CompositionPlaylist" = true)
      (found : List AssetId) : (collect [] root.children).result = .ok found ↔
        ∃ ids, RefersTo root ids ∧ ids.eraseDups = found := by
    rw [collect_children named]
    exact @result_gatherAll_eq_ok_iff (references root) [] found
  rw [ofRoot, Attempt.result_bind_eq_ok_iff]
  constructor
  · intro read
    obtain ⟨⟨root, id⟩, hroot, hread⟩ := read
    obtain ⟨rfl, named, identified⟩ := readRoot_eq_ok_iff.1 hroot
    obtain ⟨found, collected, hp⟩ := Attempt.result_bind_eq_ok_iff.1 hread
    obtain ⟨ids, all, rfl⟩ := (gathers named found).1 collected
    cases hp
    exact ⟨root, ids, rfl, named, identified, all, rfl⟩
  · intro inOrder
    obtain ⟨root, ids, rfl, named, identified, all, hp⟩ := inOrder
    refine ⟨(root, p.id), readRoot_eq_ok_iff.2 ⟨rfl, named, identified⟩, ?_⟩
    refine Attempt.result_bind_eq_ok_iff.2 ⟨_, (gathers named _).2 ⟨ids, all, rfl⟩, ?_⟩
    rw [hp]
    rfl

/-- Otherwise the error is the first thing wrong with it. -/
theorem result_ofRoot_eq_error_iff : (ofRoot tree).result = .error flaw ↔ FirstFlaw tree flaw := by
  rw [ofRoot, Attempt.result_bind_eq_error_iff]
  constructor
  · intro failed
    rcases failed with hroot | ⟨⟨root, id⟩, hroot, hread⟩
    · exact firstFlaw_of_readRoot hroot
    · obtain ⟨rfl, named, identified⟩ := readRoot_eq_ok_iff.1 hroot
      rcases Attempt.result_bind_eq_error_iff.1 hread with failed | ⟨found, -, impossible⟩
      · rw [collect_children named] at failed
        obtain ⟨before, e, after, f, split, good, bad, rfl⟩ :=
          result_gatherAll_eq_error_iff.1 failed
        exact .badTrackFile named identified split good bad
      · cases impossible
  · intro h
    cases h with
    | noRoot => exact .inl rfl
    | otherRoot other => exact .inl (by simp [readRoot, other, Attempt.ofExcept])
    | noId named silent =>
      have silent := Element.textOf?_eq_none_iff.2 silent
      exact .inl (by simp [readRoot, named, silent, Attempt.ofExcept])
    | badId named told bad =>
      have told := Element.textOf?_eq_some_iff.2 told
      exact .inl (by simp [readRoot, named, told, bad, Attempt.ofExcept])
    | @badTrackFile root e id before after f named identified split good bad =>
      refine .inr ⟨(root, id), readRoot_eq_ok_iff.2 ⟨rfl, named, identified⟩, ?_⟩
      refine Attempt.result_bind_eq_error_iff.2 (.inl ?_)
      rw [collect_children named]
      exact result_gatherAll_eq_error_iff.2 ⟨before, e, after, f, split, good, bad, rfl⟩

/-! ## Documents -/

theorem exists_refersTo_iff :
    (∃ ids, RefersTo root ids) ↔ ∀ e ∈ references root, ∃ id, reference e = .ok id := by
  have each (es : List Element) :
      (∃ ids : List AssetId, es.map reference = ids.map .ok) ↔
        ∀ e ∈ es, ∃ id, reference e = .ok id := by
    induction es with
    | nil => exact ⟨fun _ => nofun, fun _ => ⟨[], rfl⟩⟩
    | cons e es ih =>
      rw [List.forall_mem_cons, ← ih]
      constructor
      · intro listed
        obtain ⟨ids, all⟩ := listed
        cases ids with
        | nil => cases all
        | cons id ids =>
          rw [List.map_cons, List.map_cons, List.cons.injEq] at all
          exact ⟨⟨id, all.1⟩, ids, all.2⟩
      · intro read
        obtain ⟨⟨id, refers⟩, ids, others⟩ := read
        exact ⟨id :: ids, by rw [List.map_cons, List.map_cons, refers, others]⟩
  exact each (references root)

theorem RefersTo.mem_iff {ids : List AssetId} (h : RefersTo root ids) :
    id ∈ ids ↔ ∃ e ∈ references root, reference e = .ok id := by
  have among : .ok id ∈ (references root).map reference ↔ id ∈ ids := by
    rw [h, List.mem_map_of_injective fun a b same => Except.ok.inj same]
  rw [← among, List.mem_map]

theorem read_identity_eq_ok_iff {bytes : List UInt8} {url : String} :
    (PlaylistReader.identity.read bytes url).result = .ok p ↔
      ∃ d, (Markup.Document.parse url bytes).result = .ok d ∧ (ofRoot d.root).result = .ok p := by
  simp only [PlaylistReader.identity, ofBytes, Attempt.result_mapError_eq_ok_iff,
    Attempt.result_bind_eq_ok_iff]

/-- What the reader of a package makes of a document goes by its tree. -/
theorem result_read_identity {bytes : List UInt8} {url : String} {d : Markup.Document}
    (parsed : (Markup.Document.parse url bytes).result = .ok d) :
    (PlaylistReader.identity.read bytes url).result =
      (ofRoot d.root).result.mapError (.playlist url) := by
  have read : (ofBytes bytes url).result = (ofRoot d.root).result.mapError (.invalid url) := by
    rw [ofBytes, Attempt.bind_ok (Attempt.result_mapError_eq_ok_iff.2 parsed)]
    rfl
  have inOtherWords : (PlaylistReader.identity.read bytes url).result =
      (ofBytes bytes url).result.mapError Package.Error.ofPlaylist := rfl
  rw [inOtherWords, read]
  cases (ofRoot d.root).result <;> rfl

/-- A document is read as a playlist exactly if its root has the right name, the first identifier
under it is one, and so is what every reference in it says, at any depth, unless the reference is
inside of another.  The track files are then what the references say in document order, without
the later repetitions, so that each is there once.  Otherwise the error is about the root, or else
about the identifier, or else about the first reference that cannot be read. -/
theorem read_by_references {bytes : List UInt8} {url : String} {d : Markup.Document}
    (parsed : (Markup.Document.parse url bytes).result = .ok d) :
    let outcome := (PlaylistReader.identity.read bytes url).result
    ((∃ p, outcome = .ok p) ↔
      ∃ root, d.root = some root ∧ root.isNamed "CompositionPlaylist" = true ∧
        (∃ id, Identified root id) ∧ ∀ e ∈ references root, ∃ id, reference e = .ok id) ∧
    (∀ p, outcome = .ok p →
      ∃ root ids, d.root = some root ∧ Identified root p.id ∧
        p.title = root.textOf? "ContentTitle" ∧ RefersTo root ids ∧
        p.trackFiles = ids.eraseDups ∧ p.trackFiles.Nodup ∧
        ∀ e ∈ references root, ∃ id, reference e = .ok id ∧ p.trackFiles.count id = 1) ∧
    (∀ e, outcome = .error e ↔ ∃ flaw, FirstFlaw d.root flaw ∧ .playlist url flaw = e) := by
  intro outcome
  have same : outcome = (ofRoot d.root).result.mapError (.playlist url) :=
    result_read_identity parsed
  have read (p : Playlist) : outcome = .ok p ↔ (ofRoot d.root).result = .ok p := by
    rw [same, Attempt.mapError_eq_ok_iff]
  refine ⟨?_, ?_, ?_⟩
  · simp only [read, result_ofRoot_eq_ok_iff, ← exists_refersTo_iff]
    constructor
    · intro read
      obtain ⟨p, root, ids, hroot, named, identified, refers, -⟩ := read
      exact ⟨root, hroot, named, ⟨p.id, identified⟩, ids, refers⟩
    · intro inOrder
      obtain ⟨root, hroot, named, ⟨id, identified⟩, ids, refers⟩ := inOrder
      exact ⟨⟨id, root.textOf? "ContentTitle", ids.eraseDups⟩, root, ids, hroot, named, identified,
        refers, rfl⟩
  · intro p hp
    obtain ⟨root, ids, hroot, -, identified, refers, fields⟩ :=
      result_ofRoot_eq_ok_iff.1 ((read p).1 hp)
    have title : p.title = root.textOf? "ContentTitle" := congrArg Playlist.title fields
    have trackFiles : p.trackFiles = ids.eraseDups := congrArg Playlist.trackFiles fields
    have once : p.trackFiles.Nodup := trackFiles ▸ nodup_eraseDups ids
    refine ⟨root, ids, hroot, identified, title, refers, trackFiles, once, fun e he => ?_⟩
    obtain ⟨id, hid⟩ := exists_refersTo_iff.1 ⟨ids, refers⟩ e he
    refine ⟨id, hid, List.count_eq_one_of_mem once ?_⟩
    rw [trackFiles, List.mem_eraseDups]
    exact refers.mem_iff.2 ⟨e, he, hid⟩
  · intro e
    rw [same, Attempt.mapError_eq_error_iff]
    simp only [result_ofRoot_eq_error_iff]

namespace Sample

def playlistName : Markup.Name :=
  ⟨"compositionplaylist".toList, by decide, by decide, by decide, by decide⟩

def idName : Markup.Name := ⟨"ID".toList, by decide, by decide, by decide, by decide⟩

def resourceName : Markup.Name := ⟨"Resource".toList, by decide, by decide, by decide, by decide⟩

def trackFileName : Markup.Name :=
  ⟨"TrackFileId".toList, by decide, by decide, by decide, by decide⟩

def trackFile : Uuid := ⟨0xab :: List.replicate 15 1, by decide⟩

def plain : trackFile.Spelling where
  before := []
  space := []
  body := "ab010101-0101-0101-0101-010101010101".toList
  after := []
  before_blank := rfl
  space_folded := .inl rfl
  body_folded := by decide
  after_blank := rfl

def prefixed : trackFile.Spelling where
  before := ['\n', ' ']
  space := "URN:UUID:".toList
  body := "AB010101-0101-0101-0101-010101010101".toList
  after := ['\t', '\n']
  before_blank := by decide
  space_folded := .inr (by decide)
  body_folded := by decide
  after_blank := by decide

def plainPiece : Markup.Piece := .ofNoBracket plain.chars (by decide)

/-- The elements of the source below. -/
def first : Element := ⟨"TrackFileId", String.ofList plain.chars, [.empty "TrackFileId"]⟩

def second : Element := ⟨"TrackFileId", String.ofList prefixed.chars, []⟩

def idElement : Element := ⟨"ID", String.ofList plain.chars, []⟩

theorem identified {root : Element} (child : root.First "Id" idElement) :
    Identified root ⟨trackFile⟩ := by
  refine ⟨_, says_of_spells child ⟨plain, rfl⟩, ?_⟩
  rw [CompositionId.parse, idElement, plain.parse_trimmed]
  rfl

/-- A reference with another one inside of it that cannot be read, and the first one again, in
another spelling. -/
def source : Markup.Source where
  marked := false
  before := []
  tag := .bare playlistName
  body :=
    .between
      (.bare idName (.pieces [plainPiece] .nil)
        (.bare resourceName
          (.bare trackFileName (.pieces [plainPiece] (.bare trackFileName .nil .nil)) .nil)
          (.bare trackFileName (.pieces [.ofNoBracket prefixed.chars (by decide)] .nil) .nil)))
      .none
  after := []

end Sample

/-- What is inside of a reference does not count, and what is said twice counts once. -/
theorem read_nested_references :
    (Markup.Document.parse "CPL.xml" Sample.source.bytes).result =
      .ok ⟨"CPL.xml", some Sample.source.element⟩ ∧
    ∃ p, (PlaylistReader.identity.read Sample.source.bytes "CPL.xml").result = .ok p ∧
      p.trackFiles = [⟨Sample.trackFile⟩] := by
  have parsed := Markup.Document.parse_written Sample.source "CPL.xml"
  obtain ⟨accepts, contents, -⟩ := read_by_references parsed
  have refers : RefersTo Sample.source.element [⟨Sample.trackFile⟩, ⟨Sample.trackFile⟩] := by
    have found : references Sample.source.element = [Sample.first, Sample.second] := rfl
    have first : reference Sample.first = .ok ⟨Sample.trackFile⟩ :=
      reference_eq_ok_iff.2 ⟨Sample.plain, rfl⟩
    have second : reference Sample.second = .ok ⟨Sample.trackFile⟩ :=
      reference_eq_ok_iff.2 ⟨Sample.prefixed, rfl⟩
    rw [RefersTo, found, List.map_cons, List.map_cons, first, second]
    rfl
  have identified : Identified Sample.source.element ⟨Sample.trackFile⟩ :=
    Sample.identified (Element.child?_eq_some_iff.1 rfl)
  obtain ⟨p, read⟩ := accepts.2
    ⟨_, rfl, by decide, ⟨_, identified⟩, exists_refersTo_iff.1 ⟨_, refers⟩⟩
  obtain ⟨root, ids, hroot, -, -, again, trackFiles, -⟩ := contents p read
  cases hroot
  have same : ids = [⟨Sample.trackFile⟩, ⟨Sample.trackFile⟩] :=
    (List.map_inj_right fun _ _ => Except.ok.inj).1 (again.symm.trans refers)
  refine ⟨parsed, p, read, ?_⟩
  rw [trackFiles, same]
  decide

end MasterPackage.Playlist
