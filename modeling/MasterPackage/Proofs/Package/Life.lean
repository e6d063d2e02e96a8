import MasterPackage.Proofs.Package.Opening
import MasterPackage.Transport.Rehearsal

/-!
# The life of a package

What a caller can do with a package is called for in any order and any number of times, each
time in whatever world there is then, until the package is taken apart, which uses it up.  What
holds of the package after every call is the invariant `Settled`: nothing is half done, and what
the package holds it holds exactly while it is ready.

A call that the package's state does not allow changes nothing.  There are two things to that
which `Moment.Proper` takes into account.  Taking a package apart uses it up even when there is
nothing to be had; and the reader of an opening may itself say that the state was wrong, when the
playlist has been loaded already.
-/

namespace MasterPackage.Package

open Transport

variable {ω σ κ : Type}

/-- What a caller can do with a package. -/
inductive Call (σ : Type) where
  | openAt (url : String) (supplied : Option σ)
  | close
  | nextPacket
  | unlistedAssets
  | takeApart

/-- Whether a call leaves the package to its caller. -/
def Call.keeps : Call σ → Bool
  | takeApart => false
  | _ => true

/-- What a caller is told. -/
inductive Answer (κ : Type) where
  | done
  | packet (p : Option (List UInt8))
  | assets (ids : List AssetId)
  | parts (playlist : κ) (registry : AssetMap.Registry)

/-- What a call comes to: the outcome, and the package after it if there still is one. -/
structure Reply (ω κ : Type) where
  outcome : Outcome ω Error (Answer κ)
  package? : Option (Package κ)

/-- A call is made in a world. -/
def call (h : Host ω σ) (reader : PlaylistReader κ) (p : Package κ) (w : ω) :
    Call σ → Reply ω κ
  | .openAt url supplied =>
    let y := p.openAt h reader url supplied w
    ⟨⟨⟨y.outcome.attempt.record, y.outcome.attempt.result.map fun _ => .done⟩, y.outcome.world⟩,
      some y.package⟩
  | .close => ⟨⟨⟨p.closeNotes.map .note, .ok .done⟩, w⟩, some p.close⟩
  | .nextPacket => ⟨⟨.ofExcept (p.nextPacket.map .packet), w⟩, some p⟩
  | .unlistedAssets => ⟨⟨.ofExcept ((p.unlistedAssets reader).map .assets), w⟩, some p⟩
  | .takeApart =>
    ⟨⟨.ofExcept (p.takeApart.map fun (playlist, registry) => .parts playlist registry), w⟩, none⟩

/-- One call in a life: the package before it, the world it is made in, and its reply. -/
structure Moment (ω σ κ : Type) where
  before : Package κ
  world : ω
  call : Call σ
  reply : Reply ω κ

/-- The calls of a life, one after the other, as long as there is a package. -/
def life (h : Host ω σ) (reader : PlaylistReader κ) (p : Package κ) :
    List (ω × Call σ) → List (Moment ω σ κ)
  | [] => []
  | (w, c) :: calls =>
    ⟨p, w, c, p.call h reader w c⟩ ::
      match (p.call h reader w c).package? with
      | some q => life h reader q calls
      | none => []

/-- The package after the calls of a life, if there still is one. -/
def after (h : Host ω σ) (reader : PlaylistReader κ) (p : Package κ) :
    List (ω × Call σ) → Option (Package κ)
  | [] => some p
  | (w, c) :: calls =>
    match (p.call h reader w c).package? with
    | some q => after h reader q calls
    | none => none

section

variable {h : Host ω σ} {reader : PlaylistReader κ} {p q : Package κ} {w : ω} {c : Call σ}

theorem isSome_package?_call (h : Host ω σ) (reader : PlaylistReader κ) (p : Package κ) (w : ω)
    (c : Call σ) : (p.call h reader w c).package?.isSome = c.keeps := by
  cases c with
  | openAt url supplied => rfl
  | close => rfl
  | nextPacket => rfl
  | unlistedAssets => rfl
  | takeApart => rfl

theorem life_cons (hq : (p.call h reader w c).package? = some q) (calls : List (ω × Call σ)) :
    life h reader p ((w, c) :: calls) =
      ⟨p, w, c, p.call h reader w c⟩ :: life h reader q calls := by
  simp only [life, hq]

theorem life_cons_of_none (hnone : (p.call h reader w c).package? = none)
    (calls : List (ω × Call σ)) :
    life h reader p ((w, c) :: calls) = [⟨p, w, c, p.call h reader w c⟩] := by
  simp only [life, hnone]

theorem after_cons (hq : (p.call h reader w c).package? = some q) (calls : List (ω × Call σ)) :
    after h reader p ((w, c) :: calls) = after h reader q calls := by
  simp only [after, hq]

theorem after_cons_of_none (hnone : (p.call h reader w c).package? = none)
    (calls : List (ω × Call σ)) : after h reader p ((w, c) :: calls) = none := by
  simp only [after, hnone]

end

theorem after_append (h : Host ω σ) (reader : PlaylistReader κ) (p : Package κ)
    (calls more : List (ω × Call σ)) :
    after h reader p (calls ++ more) =
      (after h reader p calls).bind fun q => after h reader q more := by
  induction calls generalizing p with
  | nil => rfl
  | cons call calls ih =>
    obtain ⟨w, c⟩ := call
    rw [List.cons_append]
    cases hq : (p.call h reader w c).package? with
    | some q => rw [after_cons hq, after_cons hq, ih]
    | none => rw [after_cons_of_none hq, after_cons_of_none hq, Option.bind_none]

/-- A package is used up by being taken apart, and by nothing else. -/
theorem isSome_after (h : Host ω σ) (reader : PlaylistReader κ) (p : Package κ)
    (calls : List (ω × Call σ)) :
    (after h reader p calls).isSome = calls.all fun call => call.2.keeps := by
  induction calls generalizing p with
  | nil => rfl
  | cons call calls ih =>
    obtain ⟨w, c⟩ := call
    have keeps := isSome_package?_call h reader p w c
    rw [List.all_cons, ← keeps]
    cases hq : (p.call h reader w c).package? with
    | some q =>
      rw [after_cons hq, ih]
      rfl
    | none =>
      rw [after_cons_of_none hq]
      rfl

/-- What every call keeps holds of the package after a life. -/
theorem after_induction {h : Host ω σ} {reader : PlaylistReader κ} {P : Package κ → Prop}
    (step : ∀ {p q w c}, P p → (p.call h reader w c).package? = some q → P q) {p q : Package κ}
    (hp : P p) {calls : List (ω × Call σ)} (hq : after h reader p calls = some q) : P q := by
  induction calls generalizing p with
  | nil =>
    cases hq
    exact hp
  | cons call calls ih =>
    obtain ⟨w, c⟩ := call
    cases hnext : (p.call h reader w c).package? with
    | some next =>
      rw [after_cons hnext] at hq
      exact ih (step hp hnext) hq
    | none =>
      rw [after_cons_of_none hnext] at hq
      cases hq

/-- It holds before each call as well. -/
theorem before_of_mem_life {h : Host ω σ} {reader : PlaylistReader κ} {P : Package κ → Prop}
    (step : ∀ {p q w c}, P p → (p.call h reader w c).package? = some q → P q) {p : Package κ}
    (hp : P p) {calls : List (ω × Call σ)} {m : Moment ω σ κ} (hm : m ∈ life h reader p calls) :
    P m.before ∧ m = ⟨m.before, m.world, m.call, m.before.call h reader m.world m.call⟩ := by
  induction calls generalizing p with
  | nil => cases hm
  | cons call calls ih =>
    obtain ⟨w, c⟩ := call
    cases hnext : (p.call h reader w c).package? with
    | some next =>
      rw [life_cons hnext] at hm
      rcases List.mem_cons.1 hm with rfl | hm
      · exact ⟨hp, rfl⟩
      · exact ih (step hp hnext) hm
    | none =>
      rw [life_cons_of_none hnext] at hm
      cases List.mem_singleton.1 hm
      exact ⟨hp, rfl⟩

/-! ## What holds between the calls -/

/-- Nothing is half done: the package is not in the middle of reading, and each of the things
it may hold is there exactly while it is ready. -/
structure Settled (p : Package κ) : Prop where
  playlist : p.playlist?.isSome = true ↔ p.state = .ready
  registry : p.registry?.isSome = true ↔ p.state = .ready
  mapUrl : p.mapUrl?.isSome = true ↔ p.state = .ready
  idle : p.state ≠ .parsingPlaylist ∧ p.state ≠ .parsingAssetMap

theorem settled_unopened (settings : Settings) : Settled (unopened settings : Package κ) := by
  constructor <;> simp [unopened]

theorem settled_failed (settings : Settings) : Settled (failed settings : Package κ) := by
  constructor <;> simp [failed]

theorem settled_filled (settings : Settings) (c : Contents κ) : Settled (filled settings c) := by
  constructor <;> simp [filled]

theorem Settled.close {p : Package κ} (hp : Settled p) : Settled p.close := by
  rw [Package.close]
  split
  · exact hp
  · constructor <;> simp

variable {h : Host ω σ} {reader : PlaylistReader κ} {p q : Package κ} {w : ω} {c : Call σ}

/-- Before it is opened, a package holds nothing. -/
theorem Settled.eq_unopened (hp : Settled p) (hstate : p.state = .unopened) :
    p = unopened p.settings := by
  obtain ⟨settings, state, playlist?, registry?, mapUrl?⟩ := p
  obtain ⟨playlist, registry, mapUrl, idle⟩ := hp
  cases hstate
  simp_all [unopened]

/-- The occasion of opening a package in a world. -/
def occasion (p : Package κ) (h : Host ω σ) (reader : PlaylistReader κ) (url : String)
    (supplied : Option σ) (w : ω) : Occasion ω σ κ :=
  ⟨h, reader, p.settings, url, supplied, w⟩

theorem Settled.openAt_eq (hp : Settled p) (hstate : p.state = .unopened) (h : Host ω σ)
    (reader : PlaylistReader κ) (url : String) (supplied : Option σ) (w : ω) :
    p.openAt h reader url supplied w = (p.occasion h reader url supplied w).opening := by
  rw [Occasion.opening]
  exact congrArg (openAt · h reader url supplied w) (hp.eq_unopened hstate)

theorem settled_opening (o : Occasion ω σ κ) : Settled o.opening.package := by
  rcases o.maps_or_firstFailure with ⟨playlist, registry, accepted, maps⟩ | ⟨e, failure⟩
  · rw [(Occasion.opening_of_maps accepted maps).2]
    exact settled_filled _ _
  · rw [(Occasion.opening_of_firstFailure failure).2]
    exact settled_failed _

theorem opening_ne_unopened (o : Occasion ω σ κ) : o.opening.package.state ≠ .unopened := by
  rcases o.maps_or_firstFailure with ⟨playlist, registry, accepted, maps⟩ | ⟨e, failure⟩
  · rw [(Occasion.opening_of_maps accepted maps).2]
    exact State.noConfusion
  · rw [(Occasion.opening_of_firstFailure failure).2]
    exact State.noConfusion

/-- A call keeps the invariant. -/
theorem Settled.call (hp : Settled p) (hq : (p.call h reader w c).package? = some q) :
    Settled q := by
  cases c with
  | openAt url supplied =>
    cases hq
    by_cases hstate : p.state = .unopened
    · rw [hp.openAt_eq hstate]
      exact settled_opening _
    · rw [openAt_of_ne_unopened hstate]
      exact hp
  | close =>
    cases hq
    exact hp.close
  | nextPacket =>
    cases hq
    exact hp
  | unlistedAssets =>
    cases hq
    exact hp
  | takeApart => cases hq

/-! ## What holds of a call -/

namespace Moment

/-- A package that was not opened before is opened. -/
def Opens (m : Moment ω σ κ) : Prop :=
  m.before.state = .unopened ∧ ∃ url supplied, m.call = .openAt url supplied

/-- A call opens its package. -/
def succeeds (m : Moment ω σ κ) : Bool :=
  match m.call, m.reply.outcome.attempt.result with
  | .openAt _ _, .ok _ => true
  | _, _ => false

/-- A call changes nothing: the package stays what it was, or is used up if the call does not
leave it to its caller, the world is left alone, and nothing is entered. -/
structure Idle (m : Moment ω σ κ) : Prop where
  package : m.reply.package? = if m.call.keeps then some m.before else none
  world : m.reply.outcome.world = m.world
  record : m.reply.outcome.attempt.record = []

/-- What a call may do.  Only an opening deals with the world.  A call that is refused because
of the package's state is idle, unless that error is what the reader, in an opening, had to
say of the bytes of a playlist; then the package has failed. -/
structure Proper (reader : PlaylistReader κ) (m : Moment ω σ κ) : Prop where
  apart : ¬ m.Opens → m.reply.outcome.world = m.world ∧
    ∃ notes : List Note, m.reply.outcome.attempt.record = notes.map .note
  refused : ∀ request state,
    m.reply.outcome.attempt.result = .error (.wrongState request state) →
    m.Idle ∨
      m.Opens ∧ m.reply.package? = some (failed m.before.settings) ∧
        ∃ bytes url, (reader.read bytes url).result = .error (.wrongState request state)

theorem Idle.proper {m : Moment ω σ κ} (idle : m.Idle) (reader : PlaylistReader κ) :
    m.Proper reader :=
  ⟨fun _ => ⟨idle.world, [], idle.record⟩, fun _ _ _ => .inl idle⟩

end Moment

theorem idle_openAt (hstate : p.state ≠ .unopened) (h : Host ω σ) (reader : PlaylistReader κ)
    (w : ω) (url : String) (supplied : Option σ) :
    Moment.Idle ⟨p, w, .openAt url supplied, p.call h reader w (.openAt url supplied)⟩ := by
  constructor
  · simp [Package.call, openAt_of_ne_unopened hstate, Call.keeps]
  · simp only [Package.call, openAt_of_ne_unopened hstate]
  · simp only [Package.call, openAt_of_ne_unopened hstate, Attempt.ofExcept]

/-- The only stage of an opening that can say that the package is in the wrong state is the
reader's. -/
theorem wrongState_of_firstFailure {o : Occasion ω σ κ} {request : Request} {state : State}
    (failure : o.FirstFailure (.wrongState request state)) :
    ∃ bytes, (o.reader.read bytes o.url).result = .error (.wrongState request state) := by
  cases failure with
  | playlist load read => exact ⟨_, read⟩

theorem proper_openAt (hp : Settled p) (h : Host ω σ) (reader : PlaylistReader κ) (w : ω)
    (url : String) (supplied : Option σ) :
    Moment.Proper reader
      ⟨p, w, .openAt url supplied, p.call h reader w (.openAt url supplied)⟩ := by
  by_cases hstate : p.state = .unopened
  · refine ⟨fun shut => absurd ⟨hstate, url, supplied, rfl⟩ shut, fun request state herror => ?_⟩
    have failure :
        (p.occasion h reader url supplied w).FirstFailure (.wrongState request state) := by
      rw [← Occasion.opening_eq_error_iff, ← hp.openAt_eq hstate]
      simp only [Package.call] at herror
      cases hopen : (p.openAt h reader url supplied w).outcome.attempt.result with
      | ok a => rw [hopen] at herror; cases herror
      | error e => rw [hopen] at herror; cases herror; rfl
    obtain ⟨bytes, read⟩ := wrongState_of_firstFailure failure
    refine .inr ⟨⟨hstate, url, supplied, rfl⟩, ?_, bytes, url, read⟩
    simp only [Package.call, hp.openAt_eq hstate]
    exact congrArg some (Occasion.opening_of_firstFailure failure).2
  · exact (idle_openAt hstate h reader w url supplied).proper reader

theorem proper_call (hp : Settled p) (h : Host ω σ) (reader : PlaylistReader κ) (w : ω)
    (c : Call σ) : Moment.Proper reader ⟨p, w, c, p.call h reader w c⟩ := by
  cases c with
  | openAt url supplied => exact proper_openAt hp h reader w url supplied
  | close => exact ⟨fun _ => ⟨rfl, p.closeNotes, rfl⟩, fun _ _ herror => nomatch herror⟩
  | nextPacket => exact Moment.Idle.proper ⟨rfl, rfl, rfl⟩ reader
  | unlistedAssets => exact Moment.Idle.proper ⟨rfl, rfl, rfl⟩ reader
  | takeApart => exact Moment.Idle.proper ⟨rfl, rfl, rfl⟩ reader

/-- When the reader refuses the playlist, and makes no note of it, the opening ends with that. -/
theorem call_of_refused {url : String} {supplied : Option σ} {w' : ω} {journal : List Entry}
    {bytes : List UInt8} {e : Error} (fresh : p.state = .unopened)
    (loaded : h.load p.settings.limits p.settings.streamOptions url supplied w =
      ⟨⟨journal, .ok bytes⟩, w'⟩)
    (refused : reader.read bytes url = .fail e) :
    p.call h reader w (.openAt url supplied) =
      ⟨⟨⟨.note ⟨.debug, "loading CPL", [("url", url)]⟩ :: journal ++
          [.note (failedNote url .parsingPlaylist e)], .error e⟩, w'⟩,
        some { p with state := .failed }⟩ := by
  have playlist : openPlaylist h reader p.settings url supplied w =
      ⟨⟨.note ⟨.debug, "loading CPL", [("url", url)]⟩ :: journal, .error e⟩, w'⟩ := by
    have accepted : ((h.load p.settings.limits p.settings.streamOptions url supplied).mapError
        Error.load w).attempt.result = .ok bytes := by
      rw [Action.mapError, loaded]
      rfl
    have unread (remark : κ → Note) (w : ω) :
        Action.reading (.fail e) remark w = ⟨⟨[], .error e⟩, w⟩ := rfl
    rw [openPlaylist_eq, Action.announced, Action.note_bind, Action.bind_ok accepted, refused,
      unread, Action.mapError, loaded, List.append_nil]
    rfl
  have failed : (((openPlaylist h reader p.settings url supplied).mapError fun e =>
      (State.parsingPlaylist, e)) w).attempt.result = .error (.parsingPlaylist, e) := by
    rw [Action.mapError, playlist]
    rfl
  have documents : openDocuments h reader p.settings url supplied w =
      ⟨⟨.note ⟨.debug, "loading CPL", [("url", url)]⟩ :: journal, .error (.parsingPlaylist, e)⟩,
        w'⟩ := by
    rw [openDocuments, Action.bind_def, Action.bind_error failed, Action.mapError, playlist]
    rfl
  simp only [call, openAt, if_pos fresh, documents]
  rfl

/-! ## What holds of a life -/

theorem call_ne_unopened (hstate : p.state ≠ .unopened)
    (hq : (p.call h reader w c).package? = some q) : q.state ≠ .unopened := by
  cases c with
  | openAt url supplied =>
    have same := (idle_openAt hstate h reader w url supplied).package
    rw [hq] at same
    cases same
    exact hstate
  | close =>
    cases hq
    rw [state_close p]
    exact State.noConfusion
  | nextPacket =>
    cases hq
    exact hstate
  | unlistedAssets =>
    cases hq
    exact hstate
  | takeApart => cases hq

theorem call_of_closed (hstate : p.state = .closed)
    (hq : (p.call h reader w c).package? = some q) : q = p := by
  cases c with
  | openAt url supplied =>
    have hne : p.state ≠ .unopened := by rw [hstate]; exact State.noConfusion
    have same := (idle_openAt hne h reader w url supplied).package
    rw [hq] at same
    exact Option.some.inj same
  | close =>
    cases hq
    exact if_pos hstate
  | nextPacket =>
    cases hq
    rfl
  | unlistedAssets =>
    cases hq
    rfl
  | takeApart => cases hq

theorem eq_of_after_closed (hstate : p.state = .closed) {calls : List (ω × Call σ)}
    (hq : after h reader p calls = some q) : q = p := by
  refine after_induction (P := (· = p)) ?_ rfl hq
  intro p' q' w c same hnext
  subst same
  exact call_of_closed hstate hnext

/-- A call that succeeds in opening was made on a package that was not opened before. -/
theorem succeeds_eq_false (hstate : p.state ≠ .unopened) (w : ω) (c : Call σ) :
    Moment.succeeds ⟨p, w, c, p.call h reader w c⟩ = false := by
  cases c with
  | openAt url supplied =>
    simp [Moment.succeeds, Package.call, openAt_of_ne_unopened hstate, refuse, Attempt.ofExcept,
      Except.map]
  | close => rfl
  | nextPacket => rfl
  | unlistedAssets => rfl
  | takeApart => rfl

theorem countP_succeeds_of_ne_unopened (hstate : p.state ≠ .unopened)
    (calls : List (ω × Call σ)) : (life h reader p calls).countP Moment.succeeds = 0 := by
  rw [List.countP_eq_zero]
  intro m hm
  obtain ⟨before, same⟩ :=
    before_of_mem_life (P := fun p => p.state ≠ .unopened) call_ne_unopened hstate hm
  rw [same, succeeds_eq_false before, Bool.false_eq_true]
  exact id

theorem countP_succeeds_le (hp : Settled p) (h : Host ω σ)
    (reader : PlaylistReader κ) (calls : List (ω × Call σ)) :
    (life h reader p calls).countP Moment.succeeds ≤ 1 := by
  induction calls generalizing p with
  | nil => exact Nat.zero_le 1
  | cons call calls ih =>
    obtain ⟨w, c⟩ := call
    cases hq : (p.call h reader w c).package? with
    | none =>
      rw [life_cons_of_none hq]
      exact List.countP_le_length
    | some q =>
      rw [life_cons hq, List.countP_cons]
      have later := ih (hp.call hq)
      cases c with
      | openAt url supplied =>
        -- The first opening that is tried is the only one that may succeed.
        by_cases hstate : p.state = .unopened
        · have opened : q.state ≠ .unopened := by
            cases hq
            rw [hp.openAt_eq hstate]
            exact opening_ne_unopened _
          rw [countP_succeeds_of_ne_unopened opened, Nat.zero_add]
          split
          · exact Nat.le_refl 1
          · exact Nat.zero_le 1
        · rw [succeeds_eq_false hstate]
          exact later
      | close => exact later
      | nextPacket => exact later
      | unlistedAssets => exact later
      | takeApart => cases hq

/-! ## A package from its beginning -/

theorem Settled.holds (hp : Settled p) (hstate : p.state = .ready) :
    ∃ playlist registry, p.playlist? = some playlist ∧ p.registry? = some registry := by
  obtain ⟨playlist, hplaylist⟩ := Option.isSome_iff_exists.1 (hp.playlist.2 hstate)
  obtain ⟨registry, hregistry⟩ := Option.isSome_iff_exists.1 (hp.registry.2 hstate)
  exact ⟨playlist, registry, hplaylist, hregistry⟩

theorem Settled.holds_none (hp : Settled p) (hstate : p.state ≠ .ready) : p.playlist? = none := by
  cases hplaylist : p.playlist? with
  | none => rfl
  | some playlist => exact absurd (hp.playlist.1 (by rw [hplaylist]; rfl)) hstate

theorem Settled.takeApart_iff (hp : Settled p) :
    (∃ parts, p.takeApart = .ok parts) ↔ p.state = .ready := by
  by_cases hstate : p.state = .ready
  · obtain ⟨playlist, registry, hplaylist, hregistry⟩ := hp.holds hstate
    simp [takeApart, hplaylist, hregistry, hstate]
  · simp [takeApart, hp.holds_none hstate, hstate, refuse]

theorem Settled.unlistedAssets_iff (hp : Settled p) (reader : PlaylistReader κ) :
    (∃ ids, p.unlistedAssets reader = .ok ids) ↔ p.state = .ready := by
  by_cases hstate : p.state = .ready
  · obtain ⟨playlist, registry, hplaylist, hregistry⟩ := hp.holds hstate
    simp [unlistedAssets, hplaylist, hregistry, hstate]
  · simp [unlistedAssets, hp.holds_none hstate, hstate, refuse]

theorem nextPacket_iff (p : Package κ) :
    (∃ packet, p.nextPacket = .ok packet) ↔ p.state = .ready := by
  by_cases hstate : p.state = .ready <;> simp [nextPacket, hstate, refuse]

/-- A reader that never has an error to tell of a package's state. -/
def Stateless (reader : PlaylistReader κ) : Prop :=
  ∀ bytes url request state, (reader.read bytes url).result ≠ .error (.wrongState request state)

theorem ofPlaylist_ne_wrongState (e : Playlist.Error) (request : Request) (state : State) :
    Error.ofPlaylist e ≠ .wrongState request state := by
  cases e with
  | markup e => exact Error.noConfusion
  | invalid url flaw => exact Error.noConfusion

theorem stateless_identity : Stateless PlaylistReader.identity := by
  intro bytes url request state h
  obtain ⟨e, -, he⟩ := Attempt.result_mapError_eq_error_iff.1 h
  exact ofPlaylist_ne_wrongState e request state he

theorem stateless_bare : Stateless PlaylistReader.bare := by
  intro bytes url request state h
  rcases Attempt.result_bind_eq_error_iff.1 h with h | ⟨playlist, -, h⟩
  · exact stateless_identity bytes url request state h
  · cases h

/-- Whatever is called for, and in whatever worlds: between two calls nothing is half done, and
the package holds a playlist, a registry and a location exactly while it is ready; its requests
are granted exactly then; once closed it stays as it is.  There is a package until it is taken
apart.  It is opened at most once; only that opening deals with the world, and a call that the
state does not allow is idle, unless the reader was the one to say so.  Neither of the library's
readers does. -/
theorem life_of_unopened (h : Host ω σ) (reader : PlaylistReader κ) (settings : Settings)
    (calls : List (ω × Call σ)) :
    let after := Package.after h reader (unopened settings)
    let moments := life h reader (unopened settings) calls
    (after calls).isSome = (calls.all fun call => call.2.keeps) ∧
    (∀ p, after calls = some p →
      Settled p ∧ (p.state = .closed → ∀ more q, after (calls ++ more) = some q → q = p) ∧
      ((∃ packet, p.nextPacket = .ok packet) ↔ p.state = .ready) ∧
      ((∃ ids, p.unlistedAssets reader = .ok ids) ↔ p.state = .ready) ∧
      ((∃ parts, p.takeApart = .ok parts) ↔ p.state = .ready)) ∧
    moments.countP Moment.succeeds ≤ 1 ∧ (∀ m ∈ moments, m.Proper reader) ∧
    Stateless PlaylistReader.identity ∧ Stateless PlaylistReader.bare := by
  intro after moments
  have fresh : Settled (unopened settings : Package κ) := settled_unopened settings
  refine ⟨isSome_after h reader _ calls, ?_, countP_succeeds_le fresh h reader calls, ?_,
    stateless_identity, stateless_bare⟩
  · intro p hp
    have settled : Settled p := after_induction Settled.call fresh hp
    refine ⟨settled, ?_, nextPacket_iff p, settled.unlistedAssets_iff reader,
      settled.takeApart_iff⟩
    intro hstate more q hq
    have later : after (calls ++ more) =
        (after calls).bind fun q => Package.after h reader q more :=
      after_append h reader (unopened settings) calls more
    rw [later, hp] at hq
    exact eq_of_after_closed hstate hq
  · intro m hm
    obtain ⟨settled, same⟩ := before_of_mem_life Settled.call fresh hm
    rw [same]
    exact proper_call settled h reader m.world m.call

namespace Sample

/-- A reader that blames the state of the package for whatever it reads. -/
def accusing : PlaylistReader Unit where
  read _ _ := .fail (.wrongState .openDocuments .unopened)
  id _ := ⟨⟨List.replicate 16 0, rfl⟩⟩
  referenced _ := []

/-- A host with a stream of one byte at every location. -/
def host : Host Signals Stream :=
  { (⟨[], .never⟩ : Rehearsal).host with
    openStream _ _ := pure (.memory (.ofBytes [0x3c]))
    incidental _ _ _ _ h := nomatch h }

def settings : Settings := ⟨none, .empty, 64, 8⟩

def journal : List Entry :=
  [.opening "mem://cpl" .empty, .opened "mem://cpl", .reservation 0 2, .poll false,
    .read (.bytes [0x3c]), .reservation 0 1, .poll false, .read (.bytes []),
    .note (Host.loadedNote "mem://cpl" 1 1), .closing "mem://cpl",
    .note (Host.closedNote "mem://cpl")]

theorem load_host : host.load settings.limits settings.streamOptions "mem://cpl" none ⟨false, 0⟩ =
    ⟨⟨journal, .ok [0x3c]⟩, ⟨false, 0⟩⟩ := by cbv

end Sample

/-- A refused call need not be idle: when the reader refuses a playlist, the stream has been opened,
asked about and read, and the package has failed.  A package that cannot be taken apart is left
unread, but it is gone. -/
theorem refused_not_idle :
    let p : Package Unit := unopened Sample.settings
    let opening := p.call Sample.host Sample.accusing ⟨false, 0⟩ (.openAt "mem://cpl" none)
    let apart := p.call Sample.host Sample.accusing ⟨false, 0⟩ .takeApart
    opening.outcome.attempt.result = .error (.wrongState .openDocuments .unopened) ∧
      Entry.openings opening.outcome.attempt.record = [("mem://cpl", .empty)] ∧
      Entry.polls opening.outcome.attempt.record = 2 ∧
      Entry.reads opening.outcome.attempt.record = 2 ∧
      opening.package? = some (failed Sample.settings) ∧ opening.package? ≠ some p ∧
      apart.outcome.attempt.result = .error (.wrongState .takeApart .unopened) ∧
      apart.package? = none := by
  intro p opening apart
  have refused : opening = _ := call_of_refused rfl Sample.load_host rfl
  rw [refused]
  refine ⟨rfl, rfl, rfl, rfl, rfl, ?_, rfl, rfl⟩
  intro same
  have states : State.failed = State.unopened := congrArg Package.state (Option.some.inj same)
  cases states

end MasterPackage.Package
