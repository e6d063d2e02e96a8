import MasterPackage.Proofs.Transport.Turns

/-!
# Causes of failed loads

Two of the errors of a load say something about the document and the memory rather than about
the way to it: that the document is empty, and that there was no memory.  A load that has a stream
says so exactly when it is so: when the stream stops at its end without having brought a byte, and
when memory was asked for and not granted, before the first read or behind any other.

A load that has no stream says what the host said when it failed to open one, whatever that was.
So these two errors may also be the host's own words, with nothing read and no memory asked for.
-/

namespace MasterPackage.Transport

/-- The failure is that the document is empty. -/
def ToldEmpty {α : Type} (x : Except LoadError α) : Prop := ∃ url, x = .error (.empty url)

/-- The failure is that there was no memory. -/
def ToldOutOfMemory {α : Type} (x : Except LoadError α) : Prop :=
  ∃ url requested, x = .error (.outOfMemory url requested)

namespace Host

variable {ω σ : Type} {h : Host ω σ}

/-! ## One turn -/

section

variable {maxSize held : Nat} {url : String} {r : Reading} {atEnd : Bool} {more : List Entry}
  {result : Except LoadError (List UInt8)} {chunk : List UInt8}

/-- A turn finds a stream empty if it stops at its end with nothing held. -/
theorem toldEmpty_turn (hturn : h.turn maxSize url held r atEnd = .last more result) :
    ToldEmpty result ↔ held = 0 ∧ r = .bytes [] ∧ atEnd = true := by
  unfold turn at hturn
  split at hturn
  · cases hturn
    simp [ToldEmpty]
  · cases hturn
  · cases hturn
    cases atEnd with
    | false => simp [ToldEmpty, stopped]
    | true =>
      by_cases hheld : held = 0
      · simp [ToldEmpty, stopped, hheld]
      · simp [ToldEmpty, stopped, hheld]
  · dsimp only at hturn
    split at hturn
    · cases hturn
      simp [ToldEmpty]
    · split at hturn
      · cases hturn
      · cases hturn
        simp [ToldEmpty]

/-- The last turn fails for want of memory if it was refused some. -/
theorem toldOutOfMemory_turn (hturn : h.turn maxSize url held r atEnd = .last more result) :
    ToldOutOfMemory result ↔ h.Refuses more := by
  unfold turn at hturn
  split at hturn
  · cases hturn
    simp [ToldOutOfMemory, Refuses]
  · cases hturn
  · cases hturn
    unfold stopped
    split
    · simp [ToldOutOfMemory, Refuses]
    · split
      · simp [ToldOutOfMemory, Refuses]
      · simp [ToldOutOfMemory, Refuses]
  · dsimp only at hturn
    split at hturn
    · cases hturn
      simp [ToldOutOfMemory, Refuses]
    · split at hturn
      · cases hturn
      · next refused =>
        cases hturn
        have hrefuses : h.Refuses [.reservation held (_ :: _).length] :=
          refuses_reservation_iff.2 (.inl (Bool.eq_false_iff.2 refused))
        exact ⟨fun _ => hrefuses, fun _ => ⟨_, _, rfl⟩⟩

/-- A turn with another behind it was refused nothing. -/
theorem not_refuses_turn (hturn : h.turn maxSize url held r atEnd = .onward more chunk) :
    ¬h.Refuses more := by
  unfold turn at hturn
  split at hturn
  · cases hturn
  · cases hturn
    simp [Refuses]
  · cases hturn
  · dsimp only at hturn
    split at hturn
    · cases hturn
    · split at hturn
      · next granted =>
        cases hturn
        rw [refuses_reservation_iff, granted]
        simp [Refuses]
      · cases hturn

end

/-! ## The rest of a stream -/

theorem Drained.result_behind_eq_error_iff {d : Drained ω σ} {chunk : List UInt8}
    {e : LoadError} : (d.behind chunk).attempt.result = .error e ↔ d.attempt.result = .error e := by
  unfold behind
  cases d.attempt.result with
  | error f => rfl
  | ok bytes => simp [Except.map]

/-- A stream delivers nothing if it stops at its end in the first round, or is disturbed in that
and then delivers nothing. -/
theorem delivers_nil_iff {s : σ} {w : ω} :
    h.Delivers s w [] ↔
      (h.poll w).1 = false ∧
        (((h.round 0 s w).reading = .bytes [] ∧ (h.round 0 s w).atEnd = true) ∨
          ((h.round 0 s w).reading = .again ∧ h.Delivers (h.next s w).1 (h.next s w).2 [])) := by
  have hstop : (h.round 0 s w).stop = (h.poll w).1 := rfl
  rw [delivers_iff, ← hstop]
  obtain ⟨stop, reading, atEnd⟩ := h.round 0 s w
  constructor
  · intro either
    rcases either with ⟨ending, -⟩ | ⟨rest, quiet, later, hnil⟩
    · cases ending
      exact ⟨rfl, .inl ⟨rfl, rfl⟩⟩
    · obtain ⟨hchunk, rfl⟩ := List.append_eq_nil_iff.1 hnil.symm
      rw [Round.isQuiet, Bool.and_eq_true, Bool.not_eq_true'] at quiet
      refine ⟨quiet.1, .inr ⟨?_, later⟩⟩
      cases reading with
      | again => rfl
      | failed cause => cases quiet.2
      | bytes chunk =>
        obtain rfl : chunk = [] := hchunk
        cases quiet.2
  · intro either
    rcases either with ⟨rfl, ⟨rfl, rfl⟩ | ⟨rfl, later⟩⟩
    · exact .inl ⟨rfl, rfl⟩
    · exact .inr ⟨[], rfl, later, rfl⟩

/-- The rest of a stream is found empty if nothing was held before and nothing comes. -/
theorem toldEmpty_drain (h : Host ω σ) (maxSize : Nat) (url : String) (held : Nat) (s : σ) (w : ω) :
    ToldEmpty (h.drain maxSize url held s w).attempt.result ↔ held = 0 ∧ h.Delivers s w [] := by
  induction held, s, w using h.drain_induction maxSize url with
  | step held s w ih =>
    rw [delivers_nil_iff]
    cases asked : (h.poll w).1 with
    | true =>
      rw [drain_of_stop asked]
      simp [ToldEmpty]
    | false =>
      cases hturn : h.turn maxSize url held (h.round 0 s w).reading (h.round 0 s w).atEnd with
      | last more result =>
        have hnever : (h.round 0 s w).reading ≠ .again := by
          intro again
          rw [again] at hturn
          cases hturn
        rw [drain_of_last asked hturn]
        simp [toldEmpty_turn hturn, hnever]
      | onward more chunk =>
        have hnever : (h.round 0 s w).reading ≠ .bytes [] := by
          intro nothing
          rw [nothing] at hturn
          cases hturn
        have later := ih more chunk asked hturn
        rw [drain_of_onward asked hturn]
        simp only [ToldEmpty, Drained.after, Drained.result_behind_eq_error_iff] at later ⊢
        rw [later]
        rcases turn_eq_onward hturn with ⟨again, rfl⟩ | ⟨pos, -⟩
        · simp [again]
        · have hnot : (h.round 0 s w).reading ≠ .again := by
            intro again
            rw [again] at hturn
            cases hturn
            cases pos
          simp only [hnever, hnot, false_and, or_self, and_false, iff_false]
          omega

/-- There is no memory for the rest of a stream if some of it is refused. -/
theorem toldOutOfMemory_drain (h : Host ω σ) (maxSize : Nat) (url : String) (held : Nat) (s : σ)
    (w : ω) :
    ToldOutOfMemory (h.drain maxSize url held s w).attempt.result ↔
      h.Refuses (h.drain maxSize url held s w).attempt.record := by
  induction held, s, w using h.drain_induction maxSize url with
  | step held s w ih =>
    cases asked : (h.poll w).1 with
    | true =>
      rw [drain_of_stop asked]
      simp [ToldOutOfMemory, Refuses]
    | false =>
      cases hturn : h.turn maxSize url held (h.round 0 s w).reading (h.round 0 s w).atEnd with
      | last more result =>
        rw [drain_of_last asked hturn]
        exact (toldOutOfMemory_turn hturn).trans refuses_turn_iff.symm
      | onward more chunk =>
        have granted := not_refuses_turn hturn
        have later := ih more chunk asked hturn
        rw [drain_of_onward asked hturn]
        simp only [ToldOutOfMemory, Drained.after, Drained.result_behind_eq_error_iff] at later ⊢
        rw [later, List.cons_append, List.cons_append, refuses_turn_iff, refuses_append_iff]
        simp only [granted, false_or]
        rfl

/-! ## Whole loads -/

theorem toldEmpty_readAll (h : Host ω σ) (limits : Limits) (url : String) (s : σ) (w : ω) :
    ToldEmpty (h.readAll limits url s w).attempt.result ↔
      h.grants 0 (h.firstReservation limits s) = true ∧ h.Delivers s w [] := by
  have drained := h.toldEmpty_drain limits.maxSize.toNat url 0 s w
  rw [readAll]
  split
  · next granted =>
    simp only [Drained.after]
    cases hresult : (h.drain limits.maxSize.toNat url 0 s w).attempt.result with
    | ok bytes =>
      rw [hresult] at drained
      simpa [ToldEmpty, granted] using drained
    | error e =>
      rw [hresult] at drained
      simpa [granted] using drained
  · next refused => simp [ToldEmpty, refused]

theorem toldOutOfMemory_readAll (h : Host ω σ) (limits : Limits) (url : String) (s : σ) (w : ω) :
    ToldOutOfMemory (h.readAll limits url s w).attempt.result ↔
      h.Refuses (h.readAll limits url s w).attempt.record := by
  have drained := h.toldOutOfMemory_drain limits.maxSize.toNat url 0 s w
  rw [readAll]
  split
  · next granted =>
    have first : ¬h.Refuses [.reservation 0 (h.firstReservation limits s)] := by
      rw [refuses_reservation_iff, granted]
      simp [Refuses]
    simp only [Drained.after]
    cases hresult : (h.drain limits.maxSize.toNat url 0 s w).attempt.result with
    | ok bytes =>
      rw [hresult] at drained
      simp only
      rw [refuses_append_iff, refuses_append_iff, ← drained]
      simp [Refuses, granted]
    | error e =>
      rw [hresult] at drained
      simp only
      rw [refuses_append_iff, ← drained]
      simp [first]
  · next refused =>
    have hrefuses : h.Refuses [.reservation 0 (h.firstReservation limits s)] :=
      refuses_reservation_iff.2 (.inl (Bool.eq_false_iff.2 refused))
    exact ⟨fun _ => hrefuses, fun _ => ⟨_, _, rfl⟩⟩

/-- A document is found empty: its stream is read to the end without a byte. -/
def FindsEmpty (h : Host ω σ) (limits : Limits) (options : Options) (url : String)
    (supplied : Option σ) (w : ω) : Prop :=
  ∃ s w₁, h.Serves options url supplied w s w₁ ∧
    h.grants 0 (h.firstReservation limits s) = true ∧ h.Delivers s w₁ []

/-- The host ought to open a stream, and this is what it says instead. -/
def FailsToOpen (h : Host ω σ) (options : Options) (url : String) (supplied : Option σ) (w : ω)
    (e : LoadError) : Prop :=
  supplied = none ∧ (h.openStream url options w).attempt.result = .error e

section

variable {limits : Limits} {options : Options} {url : String} {supplied : Option σ} {w : ω}
  {e : LoadError}

/-- A load has a stream, or its host failed to open one. -/
theorem serves_or_fails (h : Host ω σ) (options : Options) (url : String) (supplied : Option σ)
    (w : ω) :
    (∃ s w₁, h.Serves options url supplied w s w₁) ∨
      ∃ e, h.FailsToOpen options url supplied w e := by
  cases supplied with
  | some s => exact .inl ⟨s, w, .supplied s w⟩
  | none =>
    cases opened : (h.openStream url options w).attempt.result with
    | ok s => exact .inl ⟨s, _, .opened opened⟩
    | error e => exact .inr ⟨e, rfl, opened⟩

theorem FailsToOpen.not_serves (fails : h.FailsToOpen options url supplied w e) {s : σ} {w₁ : ω} :
    ¬h.Serves options url supplied w s w₁ := by
  obtain ⟨rfl, failed⟩ := fails
  intro served
  cases served with
  | opened opens =>
    rw [failed] at opens
    cases opens

/-- A load without a stream asks the host for one, and ends with the host's words. -/
theorem FailsToOpen.attempt_load (fails : h.FailsToOpen options url supplied w e)
    (limits : Limits) :
    (h.load limits options url supplied w).attempt =
      ⟨.opening url options :: (h.openStream url options w).attempt.record, .error e⟩ := by
  obtain ⟨rfl, failed⟩ := fails
  rw [load_opened, Action.enter_bind, Action.bind_error failed]

theorem FailsToOpen.not_refuses_load (fails : h.FailsToOpen options url supplied w e) :
    ¬h.Refuses (h.load limits options url supplied w).attempt.record := by
  rw [fails.attempt_load, refuses_cons_iff (e := .opening url options) nofun]
  exact h.not_refuses_openStream url options w

/-- A load says that the document is empty exactly if it is found empty, or if the host said so. -/
theorem toldEmpty_load_iff :
    ToldEmpty (h.load limits options url supplied w).attempt.result ↔
      h.FindsEmpty limits options url supplied w ∨
        ∃ u, h.FailsToOpen options url supplied w (.empty u) := by
  constructor
  · intro empty
    rcases h.serves_or_fails options url supplied w with ⟨s, w₁, served⟩ | ⟨e, fails⟩
    · rw [served.result_load, toldEmpty_readAll] at empty
      exact .inl ⟨s, w₁, served, empty⟩
    · rw [fails.attempt_load] at empty
      obtain ⟨u, same⟩ := empty
      cases same
      exact .inr ⟨u, fails⟩
  · intro cause
    rcases cause with ⟨s, w₁, served, empty⟩ | ⟨u, fails⟩
    · rw [served.result_load, toldEmpty_readAll]
      exact empty
    · rw [fails.attempt_load]
      exact ⟨u, rfl⟩

/-- A load says that there was no memory exactly if it was refused some, or if the host said so. -/
theorem toldOutOfMemory_load_iff :
    ToldOutOfMemory (h.load limits options url supplied w).attempt.result ↔
      h.Refuses (h.load limits options url supplied w).attempt.record ∨
        ∃ u n, h.FailsToOpen options url supplied w (.outOfMemory u n) := by
  rcases h.serves_or_fails options url supplied w with ⟨s, w₁, served⟩ | ⟨e, fails⟩
  · rw [served.result_load, toldOutOfMemory_readAll, ← served.refuses_load_iff]
    constructor
    · exact .inl
    · intro cause
      rcases cause with refuses | ⟨u, n, fails⟩
      · exact refuses
      · exact absurd served fails.not_serves
  · constructor
    · intro starved
      rw [fails.attempt_load] at starved
      obtain ⟨u, n, same⟩ := starved
      cases same
      exact .inr ⟨u, n, fails⟩
    · intro cause
      rcases cause with refuses | ⟨u, n, said⟩
      · exact absurd refuses fails.not_refuses_load
      · rw [said.attempt_load]
        exact ⟨u, n, rfl⟩

end

end Host

end MasterPackage.Transport
