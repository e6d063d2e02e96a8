import MasterPackage.Proofs.AssetMap.Bytes
import MasterPackage.Proofs.Package.Opening
import MasterPackage.Proofs.Transport.Causes
import MasterPackage.Transport.Rehearsal

/-!
# Kinds of failures

Why a package could not be opened is told by the kind of its error, and that goes by what was
wrong with the document that was being read, whichever of the two it was.  A `Document` is what the
two have in common, and `Occasion.Current` says which of them is being read.  Each of the two
stages of an opening then fails in one of the ways listed in `Occasion.Ends`.

A host that cannot open a stream may say anything, and its words are not examined: if it says that
the document is empty or that there was no memory, the kind of the error is the one that goes with
that, although nothing was read and no memory was asked for.
-/

namespace MasterPackage

open Markup (Element)
open Transport

namespace Playlist

theorem result_ofBytes_eq_error_iff {bytes : List UInt8} {url : String} {e : Error} :
    (ofBytes bytes url).result = .error e ↔
      (∃ f, (Markup.Document.parse url bytes).result = .error f ∧ .markup f = e) ∨
        ∃ d, (Markup.Document.parse url bytes).result = .ok d ∧
          ∃ flaw, (ofRoot d.root).result = .error flaw ∧ .invalid url flaw = e := by
  simp only [ofBytes, Attempt.result_bind_eq_error_iff, Attempt.result_mapError_eq_ok_iff,
    Attempt.result_mapError_eq_error_iff]

end Playlist

namespace Package

variable {ω σ : Type}

/-! ## Kinds of failed loads -/

/-- The failure is on the way to the document: in opening its stream or in reading it. -/
inductive OnTheWay : LoadError → Prop
  | notOpened (url cause : String) : OnTheWay (.notOpened url cause)
  | unsupported (url scheme : String) : OnTheWay (.unsupported url scheme)
  | notRead (url cause : String) : OnTheWay (.notRead url cause)
  | interrupted (url : String) : OnTheWay (.interrupted url)
  | incomplete (url : String) (read : Nat) : OnTheWay (.incomplete url read)

section

variable {f : LoadError}

theorem loadKind_eq_parse_iff : loadKind f = .parse ↔ ∃ url, f = .empty url := by
  cases f <;> simp [loadKind]

theorem loadKind_eq_allocation_iff :
    loadKind f = .allocation ↔ ∃ url requested, f = .outOfMemory url requested := by
  cases f <;> simp [loadKind]

theorem loadKind_eq_io_iff : loadKind f = .io ↔ OnTheWay f := by
  constructor
  · intro io
    cases f with
    | notOpened url cause => exact .notOpened url cause
    | unsupported url scheme => exact .unsupported url scheme
    | notRead url cause => exact .notRead url cause
    | interrupted url => exact .interrupted url
    | incomplete url read => exact .incomplete url read
    | empty url => cases io
    | outOfMemory url requested => cases io
  · intro way
    cases way <;> rfl

theorem loadKind_ne_schema : loadKind f ≠ .schema := by cases f <;> nofun

theorem loadKind_ne_invalidState : loadKind f ≠ .invalidState := by cases f <;> nofun

end

/-! ## Documents -/

/-- One of the two documents of a package: its location, the stream that was supplied for it,
the world in which it is loaded, and the trees that are refused, for what is wrong with them or
because there is no room for all that they list. -/
structure Document (ω σ : Type) where
  url : String
  supplied : Option σ
  world : ω
  Misshapen : Option Element → Prop
  Outgrown : Option Element → Prop

namespace Occasion

def playlistDocument (o : Occasion ω σ Playlist) : Document ω σ where
  url := o.url
  supplied := o.supplied
  world := o.world
  Misshapen root := ∃ flaw, (Playlist.ofRoot root).result = .error flaw
  Outgrown _ := False

def mapDocument (o : Occasion ω σ Playlist) (playlist : Playlist) : Document ω σ where
  url := o.mapUrl
  supplied := none
  world := o.playlistLoad.world
  Misshapen root := ∃ element lack asset,
    AssetMap.Refusal (o.context playlist) root ((o.context playlist).lacks element lack asset)
  Outgrown root := ∃ entries, AssetMap.Refusal (o.context playlist) root (.full entries)

/-- The document that is being read: the playlist, or the asset map once a playlist was
accepted. -/
inductive Current (o : Occasion ω σ Playlist) : Document ω σ → Prop
  | playlist : (∀ playlist, ¬o.Accepts playlist) → Current o o.playlistDocument
  | map {playlist : Playlist} : o.Accepts playlist → Current o (o.mapDocument playlist)

variable {o : Occasion ω σ Playlist} {d : Document ω σ} {k : ErrorKind}

/-! ## Causes -/

/-- What loading a document comes to. -/
def loadOf (o : Occasion ω σ Playlist) (d : Document ω σ) : Except LoadError (List UInt8) :=
  (o.host.load o.settings.limits o.settings.streamOptions d.url d.supplied d.world).attempt.result

/-- The stream of the document is read to its end without a byte. -/
def Blank (o : Occasion ω σ Playlist) (d : Document ω σ) : Prop :=
  o.host.FindsEmpty o.settings.limits o.settings.streamOptions d.url d.supplied d.world

/-- Memory that the document takes is refused. -/
def Starved (o : Occasion ω σ Playlist) (d : Document ω σ) : Prop :=
  o.host.Refuses (o.host.load o.settings.limits o.settings.streamOptions d.url d.supplied
    d.world).attempt.record

/-- The host fails to open a stream for the document, and this is what it says. -/
def Unopened (o : Occasion ω σ Playlist) (d : Document ω σ) (f : LoadError) : Prop :=
  o.host.FailsToOpen o.settings.streamOptions d.url d.supplied d.world f

/-- The document is loaded and makes no tree. -/
def Malformed (o : Occasion ω σ Playlist) (d : Document ω σ) : Prop :=
  ∃ bytes f, o.loadOf d = .ok bytes ∧ (Markup.Document.parse d.url bytes).result = .error f

/-- The document is loaded and makes such a tree. -/
def Makes (o : Occasion ω σ Playlist) (d : Document ω σ) (such : Option Element → Prop) : Prop :=
  ∃ bytes document, o.loadOf d = .ok bytes ∧
    (Markup.Document.parse d.url bytes).result = .ok document ∧ such document.root

/-- Reading a document fails, with an error of this kind. -/
inductive Ends (o : Occasion ω σ Playlist) (d : Document ω σ) : ErrorKind → Prop
  | load {f : LoadError} {k : ErrorKind} : o.loadOf d = .error f → loadKind f = k → Ends o d k
  | malformed : o.Malformed d → Ends o d .parse
  | misshapen : o.Makes d d.Misshapen → Ends o d .schema
  | outgrown : o.Makes d d.Outgrown → Ends o d .allocation

/-! ## Each kind has its causes -/

theorem blank_or_unopened_iff :
    (o.Blank d ∨ ∃ u, o.Unopened d (.empty u)) ↔
      ∃ f, o.loadOf d = .error f ∧ loadKind f = .parse := by
  unfold Blank Unopened
  rw [← Host.toldEmpty_load_iff, ToldEmpty]
  simp only [loadKind_eq_parse_iff]
  constructor
  · intro told
    obtain ⟨u, empty⟩ := told
    exact ⟨_, empty, u, rfl⟩
  · intro failed
    obtain ⟨f, failed, u, rfl⟩ := failed
    exact ⟨u, failed⟩

theorem starved_or_unopened_iff :
    (o.Starved d ∨ ∃ u n, o.Unopened d (.outOfMemory u n)) ↔
      ∃ f, o.loadOf d = .error f ∧ loadKind f = .allocation := by
  unfold Starved Unopened
  rw [← Host.toldOutOfMemory_load_iff, ToldOutOfMemory]
  simp only [loadKind_eq_allocation_iff]
  constructor
  · intro told
    obtain ⟨u, n, refused⟩ := told
    exact ⟨_, refused, u, n, rfl⟩
  · intro failed
    obtain ⟨f, failed, u, n, rfl⟩ := failed
    exact ⟨u, n, failed⟩

theorem ends_parse_iff :
    o.Ends d .parse ↔ (o.Blank d ∨ ∃ u, o.Unopened d (.empty u)) ∨ o.Malformed d := by
  rw [blank_or_unopened_iff]
  constructor
  · intro ends
    cases ends with
    | load failed same => exact .inl ⟨_, failed, same⟩
    | malformed malformed => exact .inr malformed
  · intro cause
    rcases cause with ⟨f, failed, same⟩ | malformed
    · exact .load failed same
    · exact .malformed malformed

theorem ends_schema_iff : o.Ends d .schema ↔ o.Makes d d.Misshapen := by
  constructor
  · intro ends
    cases ends with
    | load _ same => exact absurd same loadKind_ne_schema
    | misshapen misshapen => exact misshapen
  · exact .misshapen

theorem ends_allocation_iff :
    o.Ends d .allocation ↔
      (o.Starved d ∨ ∃ u n, o.Unopened d (.outOfMemory u n)) ∨ o.Makes d d.Outgrown := by
  rw [starved_or_unopened_iff]
  constructor
  · intro ends
    cases ends with
    | load failed same => exact .inl ⟨_, failed, same⟩
    | outgrown outgrown => exact .inr outgrown
  · intro cause
    rcases cause with ⟨f, failed, same⟩ | outgrown
    · exact .load failed same
    · exact .outgrown outgrown

theorem ends_io_iff : o.Ends d .io ↔ ∃ f, o.loadOf d = .error f ∧ OnTheWay f := by
  simp only [← loadKind_eq_io_iff]
  constructor
  · intro ends
    cases ends with
    | load failed same => exact ⟨_, failed, same⟩
  · intro cause
    obtain ⟨f, failed, same⟩ := cause
    exact .load failed same

theorem not_ends_invalidState : ¬o.Ends d .invalidState := by
  intro ends
  cases ends with
  | load _ same => exact loadKind_ne_invalidState same

/-! ## Opening fails as the document does -/

/-- What the reader of identities refuses. -/
theorem read_identity_eq_error_iff {bytes : List UInt8} {url : String} {e : Error} :
    (PlaylistReader.identity.read bytes url).result = .error e ↔
      (∃ f, (Markup.Document.parse url bytes).result = .error f ∧ .markup f = e) ∨
        ∃ document, (Markup.Document.parse url bytes).result = .ok document ∧
          ∃ flaw, (Playlist.ofRoot document.root).result = .error flaw ∧
            .playlist url flaw = e := by
  rw [PlaylistReader.identity, Attempt.result_mapError_eq_error_iff]
  simp only [Playlist.result_ofBytes_eq_error_iff]
  constructor
  · intro refused
    obtain ⟨_, ⟨f, failed, rfl⟩ | ⟨document, parsed, flaw, refused, rfl⟩, rfl⟩ := refused
    · exact .inl ⟨f, failed, rfl⟩
    · exact .inr ⟨document, parsed, flaw, refused, rfl⟩
  · intro cause
    rcases cause with ⟨f, failed, rfl⟩ | ⟨document, parsed, flaw, refused, rfl⟩
    · exact ⟨_, .inl ⟨f, failed, rfl⟩, rfl⟩
    · exact ⟨_, .inr ⟨document, parsed, flaw, refused, rfl⟩, rfl⟩

theorem ends_playlistDocument_iff (identity : o.reader = .identity) :
    o.Ends o.playlistDocument k ↔
      ∃ e, o.playlistStage.attempt.result = .error e ∧ e.kind = k := by
  simp only [playlistStage_eq_error_iff, identity, read_identity_eq_error_iff]
  constructor
  · intro ends
    cases ends with
    | load failed same => exact ⟨_, .inl ⟨_, failed, rfl⟩, same⟩
    | malformed malformed =>
      obtain ⟨bytes, f, loaded, failed⟩ := malformed
      exact ⟨_, .inr ⟨bytes, loaded, .inl ⟨f, failed, rfl⟩⟩, rfl⟩
    | misshapen misshapen =>
      obtain ⟨bytes, document, loaded, parsed, flaw, refused⟩ := misshapen
      exact ⟨_, .inr ⟨bytes, loaded, .inr ⟨document, parsed, flaw, refused, rfl⟩⟩, rfl⟩
    | outgrown outgrown =>
      obtain ⟨_, _, _, _, impossible⟩ := outgrown
      cases impossible
  · intro failed
    obtain ⟨_, ⟨f, failed, rfl⟩ | ⟨bytes, loaded, cause⟩, rfl⟩ := failed
    · exact .load failed rfl
    · rcases cause with ⟨f, failed, rfl⟩ | ⟨document, parsed, flaw, refused, rfl⟩
      · exact .malformed ⟨bytes, f, loaded, failed⟩
      · exact .misshapen ⟨bytes, document, loaded, parsed, flaw, refused⟩

/-- An asset map is refused for what is wrong with it or for want of room. -/
theorem refusal_cases {ctx : AssetMap.Context} {root : Option Element} {err : AssetMap.Error}
    (refusal : AssetMap.Refusal ctx root err) :
    (∃ element lack asset, err = ctx.lacks element lack asset) ∨
      ∃ entries, err = .full entries := by
  cases refusal with
  | noList => exact .inl ⟨_, _, _, rfl⟩
  | stop _ stop =>
    cases stop with
    | fault => exact .inl ⟨_, _, _, rfl⟩
    | full => exact .inr ⟨_, rfl⟩

theorem ends_mapDocument_iff (playlist : Playlist) :
    o.Ends (o.mapDocument playlist) k ↔
      ∃ e, (o.mapStage playlist).attempt.result = .error e ∧ e.kind = k := by
  simp only [mapStage_eq_error_iff, AssetMap.result_ofBytes_eq_error_iff]
  constructor
  · intro ends
    cases ends with
    | load failed same => exact ⟨_, .inl ⟨_, failed, rfl⟩, same⟩
    | malformed malformed =>
      obtain ⟨bytes, f, loaded, failed⟩ := malformed
      exact ⟨_, .inr ⟨bytes, _, loaded, .inl ⟨f, failed, rfl⟩, rfl⟩, rfl⟩
    | misshapen misshapen =>
      obtain ⟨bytes, document, loaded, parsed, element, lack, asset, refusal⟩ := misshapen
      exact ⟨_, .inr ⟨bytes, _, loaded, .inr ⟨document, parsed, refusal⟩, rfl⟩, rfl⟩
    | outgrown outgrown =>
      obtain ⟨bytes, document, loaded, parsed, entries, refusal⟩ := outgrown
      exact ⟨_, .inr ⟨bytes, _, loaded, .inr ⟨document, parsed, refusal⟩, rfl⟩, rfl⟩
  · intro failed
    obtain ⟨_, ⟨f, failed, rfl⟩ | ⟨bytes, err, loaded, cause, rfl⟩, rfl⟩ := failed
    · exact .load failed rfl
    · rcases cause with ⟨f, failed, rfl⟩ | ⟨document, parsed, refusal⟩
      · exact .malformed ⟨bytes, f, loaded, failed⟩
      · rcases refusal_cases refusal with ⟨element, lack, asset, rfl⟩ | ⟨entries, rfl⟩
        · exact .misshapen ⟨bytes, document, loaded, parsed, element, lack, asset, refusal⟩
        · exact .outgrown ⟨bytes, document, loaded, parsed, entries, refusal⟩

/-- Opening a package fails exactly if reading the current document does, with the same kind. -/
theorem Current.ends_iff (current : o.Current d) (identity : o.reader = .identity) :
    o.Ends d k ↔ ∃ e, o.opening.outcome.attempt.result = .error e ∧ e.kind = k := by
  cases current with
  | playlist refused =>
    rw [ends_playlistDocument_iff identity]
    simp only [opening_eq_error_iff_of_not_accepts refused]
  | map accepted =>
    rw [ends_mapDocument_iff]
    simp only [opening_eq_error_iff_of_accepts accepted]

theorem Current.kind_eq_iff {e : Error} (current : o.Current d) (identity : o.reader = .identity)
    (failed : o.opening.outcome.attempt.result = .error e) : e.kind = k ↔ o.Ends d k := by
  rw [current.ends_iff identity]
  constructor
  · intro same
    exact ⟨e, failed, same⟩
  · intro ends
    obtain ⟨e', failed', same⟩ := ends
    rw [failed] at failed'
    cases failed'
    exact same

/-- There is always one document that is being read. -/
theorem exists_current (o : Occasion ω σ Playlist) :
    ∃ d, ∀ d', o.Current d' ↔ d' = d := by
  by_cases accepting : ∃ playlist, o.Accepts playlist
  · obtain ⟨playlist, accepted⟩ := accepting
    refine ⟨o.mapDocument playlist, fun d' => ⟨fun current => ?_, fun same => same ▸ .map accepted⟩⟩
    cases current with
    | playlist refused => exact absurd accepted (refused playlist)
    | map accepted' => rw [accepted.unique accepted']
  · have refused := not_exists.1 accepting
    refine ⟨o.playlistDocument, fun d' => ⟨fun current => ?_, fun same => same ▸ .playlist refused⟩⟩
    cases current with
    | playlist => rfl
    | map accepted => exact absurd accepted (refused _)

/-- Whatever a package is opened on, one of its documents is the last that is read, and opening
fails exactly if reading that one does.  The kind of the error goes by the cause: parse if the
document is empty or malformed, schema if its tree is refused, allocation if memory for it is
refused or there is no room for what it lists, and otherwise, if something happened on the way to
it, io.  Only what a host says that fails to open a stream is taken at its word.  The kind is the
same for both documents, and never that the package was in a wrong state. -/
theorem kind_by_cause (h : Host ω σ) (settings : Settings) (url : String) (supplied : Option σ)
    (w : ω) :
    let o : Occasion ω σ Playlist := ⟨h, .identity, settings, url, supplied, w⟩
    ∃ d, (∀ d', o.Current d' ↔ d' = d) ∧
      (∀ e, o.opening.outcome.attempt.result = .error e →
        (e.kind = .parse ↔ (o.Blank d ∨ ∃ u, o.Unopened d (.empty u)) ∨ o.Malformed d) ∧
        (e.kind = .schema ↔ o.Makes d d.Misshapen) ∧
        (e.kind = .allocation ↔
          (o.Starved d ∨ ∃ u n, o.Unopened d (.outOfMemory u n)) ∨ o.Makes d d.Outgrown) ∧
        (e.kind = .io ↔ ∃ f, o.loadOf d = .error f ∧ OnTheWay f) ∧
        ((∀ f, o.Unopened d f → OnTheWay f) →
          (e.kind = .parse ↔ o.Blank d ∨ o.Malformed d) ∧
          (e.kind = .allocation ↔ o.Starved d ∨ o.Makes d d.Outgrown) ∧
          (e.kind = .io ↔ ¬((o.Blank d ∨ o.Malformed d) ∨ o.Makes d d.Misshapen ∨
            o.Starved d ∨ o.Makes d d.Outgrown))) ∧
        e.kind ≠ .invalidState) ∧
      (∀ f, o.loadOf d = .error f →
        ∃ e, o.opening.outcome.attempt.result = .error e ∧ e.kind = loadKind f) ∧
      ∀ k, o.Ends d k ↔ ∃ e, o.opening.outcome.attempt.result = .error e ∧ e.kind = k := by
  intro o
  obtain ⟨d, only⟩ := o.exists_current
  have current : o.Current d := (only d).2 rfl
  refine ⟨d, only, fun e failed => ?_, fun f failed => ?_, fun k => current.ends_iff rfl⟩
  · have parse := (current.kind_eq_iff rfl failed).trans ends_parse_iff
    have schema := (current.kind_eq_iff rfl failed).trans ends_schema_iff
    have allocation := (current.kind_eq_iff rfl failed).trans ends_allocation_iff
    have io := (current.kind_eq_iff rfl failed).trans ends_io_iff
    have valid : e.kind ≠ .invalidState := fun invalid =>
      not_ends_invalidState ((current.kind_eq_iff rfl failed).1 invalid)
    refine ⟨parse, schema, allocation, io, ?_, valid⟩
    intro onTheWay
    have notEmpty : ¬∃ u, o.Unopened d (.empty u) := fun said => nomatch onTheWay _ said.choose_spec
    have notOutOfMemory : ¬∃ u n, o.Unopened d (.outOfMemory u n) :=
      fun said => nomatch onTheWay _ said.choose_spec.choose_spec
    simp only [notEmpty, or_false] at parse
    simp only [notOutOfMemory, or_false] at allocation
    refine ⟨parse, allocation, ?_⟩
    rw [← parse, ← schema, ← allocation]
    cases hkind : e.kind with
    | invalidState => exact absurd hkind valid
    | _ => simp
  · exact (current.ends_iff rfl).1 (.load failed rfl)

/-! ## Hosts that say so themselves -/

theorem exists_kind_of_loadOf {f : LoadError} (identity : o.reader = .identity)
    (failed : o.loadOf o.playlistDocument = .error f) :
    ∃ e, o.opening.outcome.attempt.result = .error e ∧ e.kind = loadKind f := by
  have refused : ∀ playlist, ¬o.Accepts playlist := by
    intro playlist accepted
    obtain ⟨bytes, loaded, -⟩ := accepted
    have both := failed.symm.trans loaded
    cases both
  exact ((Current.playlist refused).ends_iff identity).1 (.load failed rfl)

/-- A host that opens no stream leaves nothing to be found. -/
theorem Unopened.not_found {f : LoadError} (said : o.Unopened d f) :
    ¬o.Blank d ∧ ¬o.Malformed d ∧ ¬o.Starved d ∧ ∀ such, ¬o.Makes d such := by
  have failed : o.loadOf d = .error f :=
    congrArg Attempt.result (said.attempt_load o.settings.limits)
  refine ⟨?_, ?_, said.not_refuses_load, ?_⟩
  · intro blank
    obtain ⟨s, w₁, served, -⟩ := blank
    exact said.not_serves served
  · intro malformed
    obtain ⟨bytes, g, loaded, -⟩ := malformed
    rw [failed] at loaded
    cases loaded
  · intro such makes
    obtain ⟨bytes, document, loaded, -⟩ := makes
    rw [failed] at loaded
    cases loaded

namespace Sample

/-- A host that gives the same answer whenever a stream is to be opened. -/
def answering (x : Except LoadError Stream) : Host Signals Stream :=
  { (⟨[], .never⟩ : Rehearsal).host with
    openStream _ _ := Action.ofAttempt (.ofExcept x)
    incidental _ _ _ _ h := nomatch h }

def failing (f : LoadError) : Host Signals Stream := answering (.error f)

/-- A stream that stalls before its first byte and says that its end was seen. -/
def stalled : Stream := .scripted (.start [.stall, .data [0x3c]] .always none)

def stalling : Host Signals Stream := answering (.ok stalled)

def opened (h : Host Signals Stream) : Occasion Signals Stream Playlist :=
  ⟨h, .identity, ⟨none, .empty, 64, 8⟩, "mem://cpl", none, ⟨false, 0⟩⟩

theorem unopened (f : LoadError) :
    (opened (failing f)).Unopened (opened (failing f)).playlistDocument f := ⟨rfl, rfl⟩

end Sample

/-- The kind goes by what is said.  It is parse when a host fails to open a stream with the words
that the document is empty, and allocation when it does so with the words that there is no memory.
It is parse as well when a stream stops before its first byte and claims to be at its end. -/
theorem kind_by_hearsay :
    let empty := Sample.opened (Sample.failing (.empty "mem://cpl"))
    let starved := Sample.opened (Sample.failing (.outOfMemory "mem://cpl" 1))
    let stalling := Sample.opened Sample.stalling
    let d := empty.playlistDocument
    ((∃ e, empty.opening.outcome.attempt.result = .error e ∧ e.kind = .parse) ∧
      ¬(empty.Blank d ∨ empty.Malformed d)) ∧
    ((∃ e, starved.opening.outcome.attempt.result = .error e ∧ e.kind = .allocation) ∧
      ¬(starved.Starved d ∨ starved.Makes d d.Outgrown)) ∧
    (∃ e, stalling.opening.outcome.attempt.result = .error e ∧ e.kind = .parse) ∧
      stalling.host.round 0 Sample.stalled stalling.world = ⟨false, .bytes [], true⟩ ∧
      stalling.host.round 1 Sample.stalled stalling.world = ⟨false, .bytes [0x3c], true⟩ := by
  intro empty starved stalling d
  refine ⟨?_, ?_, ?_⟩
  · obtain ⟨blank, malformed, -, -⟩ := (Sample.unopened (.empty "mem://cpl")).not_found
    have failed : empty.loadOf d = .error (.empty "mem://cpl") := rfl
    exact ⟨exists_kind_of_loadOf rfl failed, not_or.2 ⟨blank, malformed⟩⟩
  · obtain ⟨-, -, fed, makes⟩ := (Sample.unopened (.outOfMemory "mem://cpl" 1)).not_found
    have failed : starved.loadOf d = .error (.outOfMemory "mem://cpl" 1) := rfl
    exact ⟨exists_kind_of_loadOf rfl failed, not_or.2 ⟨fed, makes _⟩⟩
  · have failed : stalling.loadOf stalling.playlistDocument = .error (.empty "mem://cpl") := by cbv
    exact ⟨exists_kind_of_loadOf rfl failed, rfl, rfl⟩

end Occasion

end Package

end MasterPackage
