import MasterPackage.Proofs.Transport.Traffic

/-!
# Loads without an end

The streams of a host are disturbed only so often in a row, so all of its loads return.  Where
there is no such bound, and the caller never stops, a load may go on for ever.  What it does can
be told from the beginnings of it: a caller who has so many answers and then stops cuts the load
at that question, and does not change what was asked and read before.

Either one of these cut loads ends of itself, and then so do all that are cut later, in the same
way; or all of them go by turns along one and the same sequence of readings, which from some place
on tell of nothing but disturbances.  With the bound that a host gives, the former is the case.
-/

namespace MasterPackage.Transport

/-! ## Without patience -/

/-- What a host does, but without a bound for how often its streams are disturbed. -/
structure Restless (ω σ : Type) where
  openStream : String → Options → Action ω LoadError σ
  read : Nat → σ → ω → Reading × σ × ω
  size? : σ → Option Nat
  atEnd : σ → Bool
  poll : ω → Bool × ω
  grants : Nat → Nat → Bool
  room : Nat → Bool
  incidental : ∀ url options w, ∀ e ∈ (openStream url options w).attempt.record,
    e.isIncidental = true

/-- The host with a caller who answers so many questions, the openers' aside, and stops at the
next one.  The number of the answers that are left is kept beside the world. -/
def Restless.within {ω σ : Type} (r : Restless ω σ) : Host (ω × Nat) σ where
  openStream url options w :=
    ⟨(r.openStream url options w.1).attempt, (r.openStream url options w.1).world, w.2⟩
  read n s w := ((r.read n s w.1).1, (r.read n s w.1).2.1, (r.read n s w.1).2.2, w.2)
  size? := r.size?
  atEnd := r.atEnd
  poll
    | (w, 0) => (true, w, 0)
    | (w, n + 1) => ((r.poll w).1, (r.poll w).2, n)
  grants := r.grants
  room := r.room
  patience _ w := w.2
  incidental url options w := r.incidental url options w.1
  patience_lt n s w asked _ := by
    obtain ⟨w, left⟩ := w
    cases left with
    | zero => cases asked
    | succ left => exact Nat.lt_succ_self left

/-- A host, its patience aside. -/
def Host.restless {ω σ : Type} (h : Host ω σ) : Restless ω σ where
  openStream := h.openStream
  read := h.read
  size? := h.size?
  atEnd := h.atEnd
  poll := h.poll
  grants := h.grants
  room := h.room
  incidental := h.incidental

namespace Restless

variable {ω σ : Type} {r : Restless ω σ} {maxSize held n m : Nat} {url : String} {s : σ} {w : ω}

/-- The stream and the world after a question and a read. -/
def next (r : Restless ω σ) (s : σ) (w : ω) : σ × ω := (r.read chunkSize s (r.poll w).2).2

/-- The reading of a given number, if nothing ends the load before it. -/
def reading (r : Restless ω σ) (k : Nat) (s : σ) (w : ω) : Reading :=
  (r.within.round k s (w, k + 1)).reading

theorem reading_succ (r : Restless ω σ) (k : Nat) (s : σ) (w : ω) :
    r.reading (k + 1) s w = r.reading k (r.next s w).1 (r.next s w).2 := rfl

theorem readings_succ (r : Restless ω σ) (n : Nat) (s : σ) (w : ω) :
    (List.range (n + 1)).map (r.reading · s w) =
      r.reading 0 s w ::
        (List.range n).map (r.reading · (r.next s w).1 (r.next s w).2) := by
  rw [List.range_succ_eq_map, List.map_cons, List.map_map]
  rfl

/-! ## The rest of a stream -/

/-- A turn with answers left ends the load, however many there are, or takes one of them. -/
theorem drain_turn (r : Restless ω σ) (maxSize : Nat) (url : String) (held : Nat) (s : σ) (w : ω) :
    (∃ x, Entry.polls x.record = 1 ∧
      ∀ n, (r.within.drain maxSize url held s (w, n + 1)).attempt = x) ∨
    ∃ more, Entry.Quiet more ∧ r.within.isLast maxSize held (r.reading 0 s w) = false ∧
      ∀ n, r.within.drain maxSize url held s (w, n + 1) =
        ((r.within.drain maxSize url (held + (r.reading 0 s w).chunk.length) (r.next s w).1
          ((r.next s w).2, n)).behind (r.reading 0 s w).chunk).after
            (.poll false :: .read (r.reading 0 s w) :: more) := by
  cases asked : (r.poll w).1 with
  | true =>
    refine .inl ⟨⟨[.poll true], .error (.interrupted url)⟩, rfl, fun n => ?_⟩
    rw [Host.drain_of_stop (w := (w, n + 1)) asked]
  | false =>
    cases hturn : r.within.turn maxSize url held (r.reading 0 s w)
        (r.within.round 0 s (w, 1)).atEnd with
    | last more result =>
      have quiet : Entry.Quiet more := Host.quiet_of_turn hturn
      refine .inl ⟨⟨.poll false :: .read (r.reading 0 s w) :: more, result⟩,
        (Entry.counts_turn quiet _).1, fun n => ?_⟩
      rw [Host.drain_of_last (w := (w, n + 1)) asked hturn]
      rfl
    | onward more chunk =>
      have quiet : Entry.Quiet more := Host.quiet_of_turn hturn
      obtain ⟨goesOn, rfl⟩ := Host.isLast_of_onward hturn
      exact .inr ⟨more, quiet, goesOn, fun n => Host.drain_of_onward (w := (w, n + 1)) asked hturn⟩

theorem polls_after_turn {more : List Entry} (quiet : Entry.Quiet more) (brought : Reading)
    (chunk : List UInt8) (d : Host.Drained (ω × Nat) σ) :
    Entry.polls ((d.behind chunk).after (.poll false :: .read brought :: more)).attempt.record =
      Entry.polls d.attempt.record + 1 := by
  rw [Host.Drained.after, Entry.polls_append, (Entry.counts_turn quiet brought).1, Nat.add_comm]
  rfl

theorem attempt_after_turn {ω ω' : Type} {d : Host.Drained ω σ} {d' : Host.Drained ω' σ}
    (same : d.attempt = d'.attempt) (chunk : List UInt8) (turn : List Entry) :
    ((d.behind chunk).after turn).attempt = ((d'.behind chunk).after turn).attempt := by
  simp only [Host.Drained.after, Host.Drained.behind, same]

/-- What is read to an end within so many questions is read in the same way by whoever would
answer more of them. -/
theorem attempt_drain_of_polls_le
    (ends : Entry.polls (r.within.drain maxSize url held s (w, n)).attempt.record ≤ n)
    (more : n ≤ m) :
    (r.within.drain maxSize url held s (w, m)).attempt =
      (r.within.drain maxSize url held s (w, n)).attempt := by
  induction n generalizing held s w m with
  | zero =>
    rw [Host.drain_of_stop rfl] at ends
    cases ends
  | succ n ih =>
    obtain ⟨m, rfl⟩ := Nat.exists_eq_succ_of_ne_zero (Nat.ne_zero_of_lt more)
    rcases r.drain_turn maxSize url held s w with ⟨x, -, same⟩ | ⟨rest, quiet, -, onward⟩
    · rw [same n, same m]
    · rw [onward n, polls_after_turn quiet] at ends
      have later := ih (Nat.le_of_succ_le_succ ends) (Nat.le_of_succ_le_succ more)
      rw [onward n, onward m]
      exact attempt_after_turn later _ _

/-- What is not read to an end within so many questions is read by turns up to the next one.  The
readings are the same for any number of them. -/
theorem byTurns_drain_of_lt
    (cut : n < Entry.polls (r.within.drain maxSize url held s (w, n)).attempt.record) :
    r.within.ByTurns maxSize held ((List.range n).map (r.reading · s w)) true
      (Entry.traffic (r.within.drain maxSize url held s (w, n)).attempt.record) := by
  induction n generalizing held s w with
  | zero =>
    rw [Host.drain_of_stop rfl]
    exact .unread r.within maxSize held true
  | succ n ih =>
    rcases r.drain_turn maxSize url held s w with ⟨x, one, same⟩ | ⟨rest, quiet, goesOn, onward⟩
    · rw [same n, one] at cut
      omega
    · rw [onward n, polls_after_turn quiet] at cut
      have later := ih (Nat.lt_of_succ_lt_succ cut)
      have asks := r.within.traffic_drain_ne_nil maxSize url
        (held + (r.reading 0 s w).chunk.length) (r.next s w).1 ((r.next s w).2, n)
      rw [onward n, Host.Drained.after, Entry.traffic_append, Host.traffic_turn quiet,
        readings_succ]
      exact .onward goesOn later asks

/-! ## Readings without an end -/

variable {rs : Nat → Reading}

/-- The number of bytes that so many readings of a sequence bring. -/
def amount (rs : Nat → Reading) (k : Nat) : Nat :=
  (((List.range k).map rs).flatMap Reading.chunk).length

theorem amount_succ (rs : Nat → Reading) (k : Nat) :
    amount rs (k + 1) = amount rs k + (rs k).chunk.length := by
  simp [amount, List.range_succ]

theorem amount_le (rs : Nat → Reading) {j k : Nat} (le : k ≤ j) : amount rs k ≤ amount rs j := by
  induction le with
  | refl => exact Nat.le_refl _
  | step _ ih => exact Nat.le_trans ih (amount_succ rs _ ▸ Nat.le_add_right ..)

theorem not_isLast_of_byTurns {h : Host ω σ} {traffic : Nat → List Entry}
    (byTurns : ∀ n, h.ByTurns maxSize held ((List.range n).map rs) true (traffic n)) (k : Nat) :
    h.isLast maxSize (held + amount rs k) (rs k) = false := by
  have split : (List.range (k + 1)).map rs = (List.range k).map rs ++ rs k :: [] := by
    rw [List.range_succ, List.map_append, List.map_cons, List.map_nil]
  have last := (byTurns (k + 1)).ends _ _ _ split
  rw [← Bool.not_eq_true, amount, last]
  exact fun none => nomatch none.2

/-- There is only so much that can be brought, so what is read without an end is from some place
on only disturbed. -/
theorem exists_forall_again {h : Host ω σ}
    (goesOn : ∀ k, h.isLast maxSize (held + amount rs k) (rs k) = false) :
    ∃ k, ∀ j, k ≤ j → rs j = .again := by
  -- The induction is on the room that is left behind some reading: each later one that is not
  -- disturbed takes of it.
  have settles (room k : Nat) (left : maxSize ≤ held + amount rs k + room) :
      ∃ k, ∀ j, k ≤ j → rs j = .again := by
    induction room generalizing k with
    | zero =>
      refine ⟨k, fun j le => (Host.isLast_eq_false_iff.1 (goesOn j)).resolve_right fun fits => ?_⟩
      have grows := amount_le rs le
      omega
    | succ room ih =>
      by_cases disturbed : ∀ j, k ≤ j → rs j = .again
      · exact ⟨k, disturbed⟩
      · obtain ⟨j, hj⟩ := Classical.not_forall.1 disturbed
        obtain ⟨le, other⟩ := Classical.not_imp.1 hj
        have fits := (Host.isLast_eq_false_iff.1 (goesOn j)).resolve_left other
        refine ih (j + 1) ?_
        have grows := amount_le rs le
        rw [amount_succ]
        omega
  exact settles maxSize 0 (Nat.le_add_left ..)

/-! ## Whole loads -/

/-- Reading a stream comes to an end, or goes by turns as long as it is let.  Then the readings are
the same for any number of answers, and from some place on all of them are disturbed. -/
theorem readAll_ends_or_goes_on (r : Restless ω σ) (limits : Limits) (url : String) (s : σ)
    (w : ω) :
    (∃ n, ∀ m, n ≤ m → (r.within.readAll limits url s (w, m)).attempt =
      (r.within.readAll limits url s (w, n)).attempt) ∨
    ∃ rs : Nat → Reading,
      (∀ n, r.within.ByTurns limits.maxSize.toNat 0 ((List.range n).map rs) true
        (Entry.traffic (r.within.readAll limits url s (w, n)).attempt.record)) ∧
      ∃ k, ∀ j, k ≤ j → rs j = .again := by
  by_cases granted : r.within.grants 0 (r.within.firstReservation limits s) = true
  · by_cases ends : ∃ n, Entry.polls
        (r.within.drain limits.maxSize.toNat url 0 s (w, n)).attempt.record ≤ n
    · obtain ⟨n, ends⟩ := ends
      exact .inl ⟨n, fun m le =>
        Host.attempt_readAll_congr rfl rfl (attempt_drain_of_polls_le ends le)⟩
    · have byTurns (n : Nat) : r.within.ByTurns limits.maxSize.toNat 0
          ((List.range n).map (r.reading · s w)) true
          (Entry.traffic (r.within.readAll limits url s (w, n)).attempt.record) := by
        rw [Host.traffic_readAll, if_pos granted]
        exact byTurns_drain_of_lt (Nat.lt_of_not_le fun le => ends ⟨n, le⟩)
      exact .inr ⟨_, byTurns, exists_forall_again (not_isLast_of_byTurns byTurns)⟩
  · refine .inl ⟨0, fun m _ => ?_⟩
    rw [Host.readAll, Host.readAll, if_neg granted, if_neg granted]

/-- A load that has its stream comes to an end, or goes by turns as long as it is let.  Then what it
asks and reads for the document is the same for any number of answers, up to the last one; no read
ends it; and from some place on every read is disturbed. -/
theorem load_ends_or_goes_on {supplied : Option σ} {options : Options} {w₁ : ω} (limits : Limits)
    (served : ∀ n, r.within.Serves options url supplied (w, n) s (w₁, n)) :
    let x n := (r.within.load limits options url supplied (w, n)).attempt
    (∃ n, ∀ m, n ≤ m → x m = x n) ∨
    ∃ rs : Nat → Reading,
      (∀ n, ∃ own,
        (x n).record = r.within.lead options url (w, n) supplied ++ own ++ Host.trail url supplied ∧
        r.within.ByTurns limits.maxSize.toNat 0 ((List.range n).map rs) true
          (Entry.traffic own)) ∧
      ∃ k, ∀ j, k ≤ j → rs j = .again := by
  intro x
  have attempt (n : Nat) : x n = ⟨_, _⟩ := (served n).attempt_load limits
  have lead (m n : Nat) : r.within.lead options url (w, m) supplied =
      r.within.lead options url (w, n) supplied := by
    cases supplied with
    | some s => rfl
    | none => rfl
  rcases r.readAll_ends_or_goes_on limits url s w₁ with ⟨n, same⟩ | ⟨rs, byTurns, again⟩
  · refine .inl ⟨n, fun m le => ?_⟩
    rw [attempt m, attempt n, same m le, lead m n]
  · exact .inr ⟨rs, fun n => ⟨_, congrArg Attempt.record (attempt n), byTurns n⟩, again⟩

/-- A stream that is disturbed for ever is read for ever, as far as the caller lets it. -/
example :
    let r : Restless Unit Unit :=
      { openStream := fun _ _ => pure (), read := fun _ s w => (.again, s, w),
        size? := fun _ => none, atEnd := fun _ => false, poll := fun w => (false, w),
        grants := fun _ _ => true, room := fun _ => true, incidental := nofun }
    Entry.traffic (r.within.load ⟨8, 4⟩ .empty "mem://a" none ((), 2)).attempt.record =
      [.poll false, .read .again, .poll false, .read .again, .poll true] := by cbv

end Restless

/-- With patience, the rest of a stream is read to an end. -/
theorem Host.exists_drain_restless {ω σ : Type} (h : Host ω σ) (maxSize : Nat) (url : String)
    (held : Nat) (s : σ) (w : ω) :
    ∃ n, Entry.polls (h.restless.within.drain maxSize url held s (w, n)).attempt.record ≤ n ∧
      (h.restless.within.drain maxSize url held s (w, n)).attempt =
        (h.drain maxSize url held s w).attempt := by
  induction held, s, w using h.drain_induction maxSize url with
  | step held s w ih =>
    cases asked : (h.poll w).1 with
    | true =>
      refine ⟨1, ?_⟩
      rw [drain_of_stop (h := h.restless.within) (w := (w, 1)) asked, drain_of_stop asked]
      exact ⟨Nat.le_refl 1, rfl⟩
    | false =>
      cases hturn : h.turn maxSize url held (h.round 0 s w).reading (h.round 0 s w).atEnd with
      | last more result =>
        have quiet : Entry.Quiet more := quiet_of_turn hturn
        refine ⟨1, ?_⟩
        rw [drain_of_last (h := h.restless.within) (w := (w, 1)) asked hturn,
          drain_of_last asked hturn]
        exact ⟨Nat.le_of_eq (Entry.counts_turn quiet _).1, rfl⟩
      | onward more chunk =>
        have quiet : Entry.Quiet more := quiet_of_turn hturn
        obtain ⟨n, ends, same⟩ := ih more chunk asked hturn
        refine ⟨n + 1, ?_⟩
        rw [drain_of_onward (h := h.restless.within) (w := (w, n + 1)) asked hturn,
          drain_of_onward asked hturn]
        refine ⟨?_, ?_⟩
        · rw [Restless.polls_after_turn quiet]
          exact Nat.succ_le_succ ends
        · exact Restless.attempt_after_turn same chunk _

theorem Host.exists_readAll_restless {ω σ : Type} (h : Host ω σ) (limits : Limits) (url : String)
    (s : σ) (w : ω) :
    ∃ n, ∀ m, n ≤ m → (h.restless.within.readAll limits url s (w, m)).attempt =
      (h.readAll limits url s w).attempt := by
  obtain ⟨n, ends, same⟩ := h.exists_drain_restless limits.maxSize.toNat url 0 s w
  refine ⟨n, fun m le => ?_⟩
  exact attempt_readAll_congr rfl rfl ((Restless.attempt_drain_of_polls_le ends le).trans same)

/-- With patience, every load comes to an end, and it is the end of the host's own load. -/
theorem Host.exists_load_restless {ω σ : Type} (h : Host ω σ) (limits : Limits) (options : Options)
    (url : String) (supplied : Option σ) (w : ω) :
    ∃ n, ∀ m, n ≤ m → (h.restless.within.load limits options url supplied (w, m)).attempt =
      (h.load limits options url supplied w).attempt := by
  cases supplied with
  | some s => exact h.exists_readAll_restless limits url s w
  | none =>
    cases opens : (h.openStream url options w).attempt.result with
    | error e =>
      refine ⟨0, fun m _ => ?_⟩
      have opens' : (h.restless.within.openStream url options (w, m)).attempt.result = .error e :=
        opens
      rw [load_opened, load_opened, Action.enter_bind, Action.enter_bind, Action.bind_error opens,
        Action.bind_error opens']
      rfl
    | ok s =>
      obtain ⟨n, same⟩ :=
        h.exists_readAll_restless limits url s (h.openStream url options w).world
      refine ⟨n, fun m le => ?_⟩
      have there : h.restless.within.Serves options url none (w, m) s
          ((h.openStream url options w).world, m) := .opened opens
      have here : h.Serves options url none w s (h.openStream url options w).world := .opened opens
      rw [there.attempt_load, here.attempt_load, same m le]
      rfl

end MasterPackage.Transport
