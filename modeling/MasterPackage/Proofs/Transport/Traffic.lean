import MasterPackage.Proofs.Transport.Causes
import MasterPackage.Proofs.Transport.Journal

/-!
# Traffic of a load

The questions and the reads of a load alternate: the caller is asked before every read, also
before one that is tried again, and nothing comes after the answer or the read that ends the load.
This is its traffic, and it depends on nothing but what the stream and the caller do: it is the
same for a stream that was supplied and for one that was opened.

* `Host.ByTurns`: what the traffic of a load is like.
* `Host.exists_byTurns_drain`: the rest of a stream, turn by turn.
* `Host.attempt_drain_of_rounds`: streams that bring the same are read alike.
* `Host.traffic_of_load`: a whole load, on any host.
-/

namespace MasterPackage.Transport

/-! ## Questions and reads -/

namespace Entry

/-- Whether a line is a question to the caller or a read. -/
def isTraffic : Entry → Bool
  | poll _ => true
  | read _ => true
  | _ => false

/-- The questions and the reads of a journal, in order. -/
def traffic (journal : List Entry) : List Entry := journal.filter isTraffic

/-- Reads, each directly after a question that let it pass. -/
def turns (rs : List Reading) : List Entry := rs.flatMap fun r => [.poll false, .read r]

variable {journal : List Entry}

theorem traffic_append (a b : List Entry) : traffic (a ++ b) = traffic a ++ traffic b :=
  List.filter_append a b

theorem polls_traffic (journal : List Entry) : polls (traffic journal) = polls journal := by
  induction journal with
  | nil => rfl
  | cons e journal ih =>
    cases e with
    | poll stop => exact congrArg (· + 1) ih
    | _ => exact ih

theorem readings_traffic (journal : List Entry) :
    readings (traffic journal) = readings journal := by
  induction journal with
  | nil => rfl
  | cons e journal ih =>
    cases e with
    | read brought => exact congrArg (brought :: ·) ih
    | _ => exact ih

theorem Quiet.traffic_eq_nil (quiet : Quiet journal) : traffic journal = [] := by
  obtain ⟨unasked, unread⟩ := quiet
  rw [polls, List.length_eq_zero_iff, List.filter_eq_nil_iff] at unasked
  rw [reads, List.length_eq_zero_iff, List.filter_eq_nil_iff] at unread
  rw [traffic, List.filter_eq_nil_iff]
  intro e he
  cases e with
  | poll stop => exact unasked _ he
  | read brought => exact unread _ he
  | _ => exact Bool.false_ne_true

theorem polls_turns (rs : List Reading) : polls (turns rs) = rs.length := by
  induction rs with
  | nil => rfl
  | cons r rs ih => exact congrArg (· + 1) ih

theorem readings_turns (rs : List Reading) : readings (turns rs) = rs := by
  induction rs with
  | nil => rfl
  | cons r rs ih => exact congrArg (r :: ·) ih

end Entry

namespace Host

variable {ω σ : Type} {h : Host ω σ}

/-! ## Turns -/

/-- Whether a read ends a load that holds so many bytes: it fails, it brings nothing, it brings
more than is allowed, or there is no memory for what it brings. -/
def isLast (h : Host ω σ) (maxSize held : Nat) : Reading → Bool
  | .again => false
  | .failed _ => true
  | .bytes chunk =>
    chunk.isEmpty || decide (maxSize < held + chunk.length) || !h.grants held chunk.length

/-- Traffic that goes by turns, with so many bytes held before: a question, a read, and so on until
a read is the last one, or else a question is, because the caller wants to stop. -/
structure ByTurns (h : Host ω σ) (maxSize held : Nat) (rs : List Reading) (stopped : Bool)
    (traffic : List Entry) : Prop where
  alternates : traffic = Entry.turns rs ++ if stopped then [.poll true] else []
  ends : ∀ before r after, rs = before ++ r :: after →
    (h.isLast maxSize (held + (before.flatMap Reading.chunk).length) r = true ↔
      after = [] ∧ stopped = false)

section

variable {maxSize held : Nat} {url : String} {r : Reading} {atEnd stopped : Bool}
  {more journal : List Entry} {result : Except LoadError (List UInt8)} {chunk : List UInt8}

theorem isLast_cons (h : Host ω σ) (maxSize held : Nat) (b : UInt8) (bs : List UInt8) :
    h.isLast maxSize held (.bytes (b :: bs)) =
      (decide (maxSize < held + (b :: bs).length) || !h.grants held (b :: bs).length) := rfl

theorem isLast_of_last (hturn : h.turn maxSize url held r atEnd = .last more result) :
    h.isLast maxSize held r = true ∧ ∀ url', result ≠ .error (.interrupted url') := by
  unfold turn at hturn
  split at hturn
  · cases hturn
    exact ⟨rfl, nofun⟩
  · cases hturn
  · cases hturn
    refine ⟨rfl, fun url' => ?_⟩
    unfold Host.stopped
    split
    · nofun
    · split
      · nofun
      · nofun
  · dsimp only at hturn
    split at hturn
    · next long =>
      cases hturn
      rw [isLast_cons, decide_eq_true long]
      exact ⟨rfl, nofun⟩
    · split at hturn
      · cases hturn
      · next refused =>
        cases hturn
        rw [isLast_cons, Bool.eq_false_iff.2 refused]
        exact ⟨Bool.or_true _, nofun⟩

theorem isLast_of_onward (hturn : h.turn maxSize url held r atEnd = .onward more chunk) :
    h.isLast maxSize held r = false ∧ r.chunk = chunk := by
  unfold turn at hturn
  split at hturn
  · cases hturn
  · cases hturn
    exact ⟨rfl, rfl⟩
  · cases hturn
  · dsimp only at hturn
    split at hturn
    · cases hturn
    · next fits =>
      split at hturn
      · next granted =>
        cases hturn
        rw [isLast_cons, decide_eq_false fits, granted]
        exact ⟨rfl, rfl⟩
      · cases hturn

/-- What is read is not the last if the read was disturbed, or if it brought something for which
there is room and memory. -/
theorem isLast_eq_false_iff :
    h.isLast maxSize held r = false ↔
      r = .again ∨ 0 < r.chunk.length ∧ held + r.chunk.length ≤ maxSize ∧
        h.grants held r.chunk.length = true := by
  cases r with
  | again => simp [isLast]
  | failed cause => simp [isLast, Reading.chunk]
  | bytes chunk =>
    cases chunk with
    | nil => simp [isLast, Reading.chunk]
    | cons b bs => simp [isLast_cons, Reading.chunk]

/-- Nothing has to be read before the caller stops, or before memory is refused. -/
theorem ByTurns.unread (h : Host ω σ) (maxSize held : Nat) (stopped : Bool) :
    h.ByTurns maxSize held [] stopped (if stopped then [.poll true] else []) := by
  refine ⟨rfl, fun before r after split => ?_⟩
  cases before with
  | nil => cases split
  | cons => cases split

theorem ByTurns.last (isLast : h.isLast maxSize held r = true) :
    h.ByTurns maxSize held [r] false [.poll false, .read r] := by
  refine ⟨rfl, fun before r' after split => ?_⟩
  cases before with
  | nil =>
    cases split
    exact ⟨fun _ => ⟨rfl, rfl⟩, fun _ => isLast⟩
  | cons first before =>
    rw [List.cons_append, List.cons.injEq] at split
    exact absurd split.2.symm (by simp)

/-- A read that is not the last one makes a turn in front of other traffic. -/
theorem ByTurns.onward {rs : List Reading} {traffic : List Entry}
    (goesOn : h.isLast maxSize held r = false)
    (later : h.ByTurns maxSize (held + r.chunk.length) rs stopped traffic) (more : traffic ≠ []) :
    h.ByTurns maxSize held (r :: rs) stopped (.poll false :: .read r :: traffic) := by
  have others : ¬(rs = [] ∧ stopped = false) := by
    intro none
    obtain ⟨rfl, rfl⟩ := none
    exact more later.alternates
  refine ⟨?_, fun before r' after split => ?_⟩
  · rw [later.alternates]
    rfl
  · cases before with
    | nil =>
      rw [List.nil_append, List.cons.injEq] at split
      obtain ⟨rfl, rfl⟩ := split
      rw [List.flatMap_nil, List.length_nil, Nat.add_zero, goesOn]
      exact ⟨nofun, fun last => absurd last others⟩
    | cons first before =>
      rw [List.cons_append, List.cons.injEq] at split
      obtain ⟨rfl, split⟩ := split
      rw [List.flatMap_cons, List.length_append, ← Nat.add_assoc]
      exact later.ends before r' after split

/-- Every read has its question, and there is one question more if that was the last. -/
theorem ByTurns.polls_eq {rs : List Reading}
    (byTurns : h.ByTurns maxSize held rs stopped (Entry.traffic journal)) :
    Entry.polls journal = Entry.reads journal + stopped.toNat := by
  have tail : Entry.polls (if stopped then [.poll true] else []) = stopped.toNat ∧
      Entry.readings (if stopped then [.poll true] else []) = [] := by
    cases stopped with
    | true => exact ⟨rfl, rfl⟩
    | false => exact ⟨rfl, rfl⟩
  have asked : Entry.polls journal = rs.length + stopped.toNat := by
    rw [← Entry.polls_traffic, byTurns.alternates, Entry.polls_append, Entry.polls_turns, tail.1]
  have brought : Entry.readings journal = rs := by
    rw [← Entry.readings_traffic, byTurns.alternates, Entry.readings_append, Entry.readings_turns,
      tail.2, List.append_nil]
  rw [asked, ← Entry.length_readings, brought]

/-! ## The rest of a stream -/

theorem traffic_turn (quiet : Entry.Quiet more) (r : Reading) :
    Entry.traffic (.poll false :: .read r :: more) = [.poll false, .read r] := by
  have front : Entry.traffic (.poll false :: .read r :: more) =
      .poll false :: .read r :: Entry.traffic more := rfl
  rw [front, quiet.traffic_eq_nil]

end

theorem traffic_drain_ne_nil (h : Host ω σ) (maxSize : Nat) (url : String) (held : Nat) (s : σ)
    (w : ω) : Entry.traffic (h.drain maxSize url held s w).attempt.record ≠ [] := by
  obtain ⟨later, asks⟩ := h.drain_asks maxSize url held s w
  rw [asks]
  exact List.cons_ne_nil _ _

/-- The rest of a stream is read turn by turn, and the caller stops it exactly if it is
interrupted. -/
theorem exists_byTurns_drain (h : Host ω σ) (maxSize : Nat) (url : String) (held : Nat) (s : σ)
    (w : ω) :
    ∃ rs stopped,
      h.ByTurns maxSize held rs stopped
        (Entry.traffic (h.drain maxSize url held s w).attempt.record) ∧
      (stopped = true ↔
        (h.drain maxSize url held s w).attempt.result = .error (.interrupted url)) := by
  induction held, s, w using h.drain_induction maxSize url with
  | step held s w ih =>
    cases asked : (h.poll w).1 with
    | true =>
      rw [drain_of_stop asked]
      exact ⟨[], true, .unread h maxSize held true, fun _ => rfl, fun _ => rfl⟩
    | false =>
      cases hturn : h.turn maxSize url held (h.round 0 s w).reading (h.round 0 s w).atEnd with
      | last more result =>
        have quiet : Entry.Quiet more := quiet_of_turn hturn
        obtain ⟨isLast, other⟩ := isLast_of_last hturn
        rw [drain_of_last asked hturn]
        refine ⟨[(h.round 0 s w).reading], false, ?_, nofun, fun told => absurd told (other url)⟩
        rw [traffic_turn quiet]
        exact .last isLast
      | onward more chunk =>
        have quiet : Entry.Quiet more := quiet_of_turn hturn
        obtain ⟨goesOn, rfl⟩ := isLast_of_onward hturn
        obtain ⟨rs, stopped, later, told⟩ := ih more _ asked hturn
        have asks := h.traffic_drain_ne_nil maxSize url
          (held + (h.round 0 s w).reading.chunk.length) (h.next s w).1 (h.next s w).2
        rw [drain_of_onward asked hturn]
        refine ⟨(h.round 0 s w).reading :: rs, stopped, ?_, ?_⟩
        · rw [Drained.after, Entry.traffic_append, traffic_turn quiet]
          exact .onward goesOn later asks
        · rw [told]
          exact Drained.result_behind_eq_error_iff.symm

/-- How the rest of a stream is read depends on the rounds to come and on nothing else. -/
theorem attempt_drain_of_rounds (h : Host ω σ) (maxSize : Nat) (url : String) (held : Nat) (s : σ)
    (w : ω) {s' : σ} {w' : ω} (rounds : ∀ k, h.round k s' w' = h.round k s w) :
    (h.drain maxSize url held s' w').attempt = (h.drain maxSize url held s w).attempt := by
  induction held, s, w using h.drain_induction maxSize url generalizing s' w' with
  | step held s w ih =>
    have first : h.round 0 s' w' = h.round 0 s w := rounds 0
    have others : ∀ k, h.round k (h.next s' w').1 (h.next s' w').2 =
        h.round k (h.next s w).1 (h.next s w).2 := fun k => rounds (k + 1)
    have answer : (h.poll w').1 = (h.poll w).1 := congrArg Round.stop first
    cases asked : (h.poll w).1 with
    | true => rw [drain_of_stop (answer.trans asked), drain_of_stop asked]
    | false =>
      cases hturn : h.turn maxSize url held (h.round 0 s w).reading (h.round 0 s w).atEnd with
      | last more result =>
        have hturn' : h.turn maxSize url held (h.round 0 s' w').reading (h.round 0 s' w').atEnd =
            .last more result := by rwa [first]
        rw [drain_of_last (answer.trans asked) hturn', drain_of_last asked hturn, first]
      | onward more chunk =>
        have hturn' : h.turn maxSize url held (h.round 0 s' w').reading (h.round 0 s' w').atEnd =
            .onward more chunk := by rwa [first]
        have later := ih more chunk asked hturn others
        rw [drain_of_onward (answer.trans asked) hturn', drain_of_onward asked hturn, first]
        simp only [Drained.after, Drained.behind, later]

/-! ## Whole streams -/

theorem traffic_readAll (h : Host ω σ) (limits : Limits) (url : String) (s : σ) (w : ω) :
    Entry.traffic (h.readAll limits url s w).attempt.record =
      if h.grants 0 (h.firstReservation limits s) then
        Entry.traffic (h.drain limits.maxSize.toNat url 0 s w).attempt.record
      else [] := by
  rw [readAll]
  split
  · simp only [Drained.after]
    split
    · rw [Entry.traffic_append, Entry.traffic_append]
      exact List.append_nil _
    · rfl
  · rfl

/-- A stream is read turn by turn, if there is memory to begin with. -/
theorem exists_byTurns_readAll (h : Host ω σ) (limits : Limits) (url : String) (s : σ) (w : ω) :
    ∃ rs stopped,
      h.ByTurns limits.maxSize.toNat 0 rs stopped
        (Entry.traffic (h.readAll limits url s w).attempt.record) ∧
      (stopped = true ↔ (h.readAll limits url s w).attempt.result = .error (.interrupted url)) := by
  rw [traffic_readAll]
  by_cases granted : h.grants 0 (h.firstReservation limits s) = true
  · obtain ⟨rs, stopped, byTurns, told⟩ :=
      h.exists_byTurns_drain limits.maxSize.toNat url 0 s w
    refine ⟨rs, stopped, ?_, ?_⟩
    · rw [if_pos granted]
      exact byTurns
    · rw [told, readAll, if_pos granted]
      cases hresult : (h.drain limits.maxSize.toNat url 0 s w).attempt.result with
      | ok bytes => simp [Drained.after, hresult]
      | error e => simp [Drained.after, hresult]
  · refine ⟨[], false, ?_, ?_⟩
    · rw [if_neg granted]
      exact .unread h limits.maxSize.toNat 0 false
    · rw [readAll, if_neg granted]
      simp

/-- How a whole stream is read depends on its size, the memory and how the rest of it is read. -/
theorem attempt_readAll_congr {ω' : Type} {h' : Host ω' σ} {limits : Limits} {url : String}
    {s s' : σ} {w : ω} {w' : ω'} (memory : h'.grants = h.grants) (sizes : h'.size? s' = h.size? s)
    (same : (h'.drain limits.maxSize.toNat url 0 s' w').attempt =
      (h.drain limits.maxSize.toNat url 0 s w).attempt) :
    (h'.readAll limits url s' w').attempt = (h.readAll limits url s w).attempt := by
  have hints : h'.hint limits s' = h.hint limits s := by rw [hint, hint, sizes]
  rw [readAll, readAll, firstReservation, firstReservation, hints, memory]
  by_cases granted : h.grants 0 (min (h.hint limits s + 1) maxCount) = true
  · simp only [if_pos granted, Drained.after, same]
    cases (h.drain limits.maxSize.toNat url 0 s w).attempt.result with
    | ok bytes => rfl
    | error e => rfl
  · simp only [if_neg granted]

theorem attempt_readAll_of_rounds (h : Host ω σ) (limits : Limits) (url : String) {s s' : σ}
    {w w' : ω} (sizes : h.size? s' = h.size? s) (rounds : ∀ k, h.round k s' w' = h.round k s w) :
    (h.readAll limits url s' w').attempt = (h.readAll limits url s w).attempt :=
  attempt_readAll_congr rfl sizes
    (h.attempt_drain_of_rounds limits.maxSize.toNat url 0 s w rounds)

/-! ## Whole loads -/

/-- What is entered before a load has its stream. -/
def lead (h : Host ω σ) (options : Options) (url : String) (w : ω) : Option σ → List Entry
  | some _ => []
  | none => .opening url options :: (h.openStream url options w).attempt.record ++ [.opened url]

/-- What is entered after a load is done with its stream. -/
def trail (url : String) : Option σ → List Entry
  | some _ => []
  | none => [.closing url, .note (closedNote url)]

section

variable {limits : Limits} {options : Options} {url : String} {supplied : Option σ} {s : σ}
  {w w₁ : ω}

theorem Serves.attempt_load (served : h.Serves options url supplied w s w₁) (limits : Limits) :
    (h.load limits options url supplied w).attempt =
      ⟨h.lead options url w supplied ++ (h.readAll limits url s w₁).attempt.record ++
          trail url supplied, (h.readAll limits url s w₁).attempt.result⟩ := by
  cases served with
  | supplied => simp [load_supplied, lead, trail]
  | opened opens =>
    rw [load_opened, Action.enter_bind, Action.bind_ok opens]
    simp [readAndClose, lead, trail]

/-- A load closes the stream that it opened, once, and none that was supplied. -/
theorem Serves.closings_load (served : h.Serves options url supplied w s w₁) (limits : Limits) :
    Entry.closings (h.load limits options url supplied w).attempt.record =
      supplied.isNone.toNat := by
  rw [← Entry.closings_moves, moves_load]
  cases served with
  | supplied => rfl
  | opened opens =>
    rw [loadMoves, opens]
    rfl

theorem quiet_openStream
    (unasked : Entry.polls (h.openStream url options w).attempt.record = 0) :
    Entry.Quiet (h.openStream url options w).attempt.record := by
  refine ⟨unasked, ?_⟩
  rw [Entry.reads, List.length_eq_zero_iff, List.filter_eq_nil_iff]
  intro e he
  have incidental := h.incidental url options w e he
  cases e with
  | read brought => cases incidental
  | _ => exact Bool.false_ne_true

/-- All that is asked and read by a load with a supplied stream, or with one that was opened
without a question, is asked and read for the document. -/
theorem Serves.traffic_load (served : h.Serves options url supplied w s w₁) (limits : Limits)
    (unasked : supplied = none → Entry.polls (h.openStream url options w).attempt.record = 0) :
    Entry.traffic (h.load limits options url supplied w).attempt.record =
      Entry.traffic (h.readAll limits url s w₁).attempt.record := by
  rw [served.attempt_load, Entry.traffic_append, Entry.traffic_append]
  cases served with
  | supplied => exact List.append_nil _
  | opened opens =>
    have before : Entry.traffic (h.lead options url w none) = [] := by
      have opening := (quiet_openStream (unasked rfl)).traffic_eq_nil
      have front : Entry.traffic (h.lead options url w none) =
          Entry.traffic (h.openStream url options w).attempt.record ++ [] :=
        Entry.traffic_append (.opening url options :: _) [.opened url]
      rw [front, opening]
      rfl
    rw [before]
    exact List.append_nil _

end

/-- Whatever the host, the limits and the options are, a load asks and reads in turns.  If no stream
is to be had, it does neither.  Otherwise each read comes directly after a question that let it
pass, and nothing comes after the answer that stops the load, a read that fails or brings nothing,
one that brings too much, or one there is no memory for; and nothing but these ends it.  So there
are as many questions as reads, or one more exactly if the load was interrupted while it read.  A
stream that it opened is closed once, after all of this, and one that was supplied is left open.
From an equal stream, supplied or opened without a question, a load makes the same by the same
questions and reads. -/
theorem traffic_of_load (h : Host ω σ) (limits : Limits) (options : Options) (url : String)
    (supplied : Option σ) (w : ω) :
    let x := (h.load limits options url supplied w).attempt
    (∀ e, supplied = none → (h.openStream url options w).attempt.result = .error e →
      x = ⟨.opening url options :: (h.openStream url options w).attempt.record, .error e⟩) ∧
    (∀ s w₁, h.Serves options url supplied w s w₁ →
      ∃ own rs stopped,
        x.record = h.lead options url w supplied ++ own ++ trail url supplied ∧
        Entry.moves own = [] ∧ Entry.closings x.record = supplied.isNone.toNat ∧
        h.ByTurns limits.maxSize.toNat 0 rs stopped (Entry.traffic own) ∧
        (stopped = true ↔ x.result = .error (.interrupted url)) ∧
        Entry.polls own = Entry.reads own + stopped.toNat) ∧
    ∀ s s' w', supplied = some s → (h.openStream url options w').attempt.result = .ok s' →
      Entry.polls (h.openStream url options w').attempt.record = 0 →
      h.size? s' = h.size? s →
      (∀ k, h.round k s' (h.openStream url options w').world = h.round k s w) →
      let y := (h.load limits options url none w').attempt
      y.result = x.result ∧ Entry.traffic y.record = Entry.traffic x.record := by
  refine ⟨?_, ?_, ?_⟩
  · intro e unsupplied failed
    subst unsupplied
    rw [load_opened, Action.enter_bind, Action.bind_error failed]
  · intro s w₁ served
    obtain ⟨rs, stopped, byTurns, told⟩ := h.exists_byTurns_readAll limits url s w₁
    refine ⟨_, rs, stopped, ?_, h.moves_readAll limits url s w₁, served.closings_load limits,
      byTurns, ?_, byTurns.polls_eq⟩
    · rw [served.attempt_load]
    · rw [told, served.result_load]
  · intro s s' w' hsupplied opens unasked sizes rounds
    subst hsupplied
    have there : h.Serves options url none w' s' (h.openStream url options w').world :=
      .opened opens
    have here : h.Serves options url (some s) w s w := .supplied s w
    have same := h.attempt_readAll_of_rounds limits url sizes rounds
    refine ⟨?_, ?_⟩
    · rw [there.result_load, here.result_load, same]
    · rw [there.traffic_load limits fun _ => unasked, here.traffic_load limits nofun, same]

/-- A stream that is disturbed again and again is read until the caller stops. -/
example :
    let s := Stream.scripted (.start [.again, .again, .again] .played none)
    Entry.traffic ((⟨[], .afterPolls 2⟩ : Rehearsal).host.load ⟨8, 4⟩ .empty "mem://a" (some s)
        ⟨false, 0⟩).attempt.record =
      [.poll false, .read .again, .poll false, .read .again, .poll true] := by cbv

end Host

end MasterPackage.Transport
