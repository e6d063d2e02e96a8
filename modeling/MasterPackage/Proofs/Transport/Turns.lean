import MasterPackage.Proofs.Transport.Rounds

/-!
# Turns of a load

Reading a stream to its end goes turn by turn: a question, a read, and what is made of that,
which may be the end.  A turn depends on what was read alone, and not on the caller.

* `Host.drain_eq`: the rest of a stream is one turn and, if that goes on, the rest.
* `Host.drain_induction`: induction along the turns of a stream.
* `Host.readingAll_eq`: a whole stream, as a sequence of actions.
-/

namespace MasterPackage.Transport

namespace Entry

theorem polls_append (a b : List Entry) : polls (a ++ b) = polls a + polls b := by
  simp only [polls, List.filter_append, List.length_append]

theorem reads_append (a b : List Entry) : reads (a ++ b) = reads a + reads b := by
  simp only [reads, List.filter_append, List.length_append]

/-- What the reads of a journal bring, in order. -/
def readings (journal : List Entry) : List Reading :=
  journal.filterMap fun
    | read brought => some brought
    | _ => none

theorem readings_append (a b : List Entry) : readings (a ++ b) = readings a ++ readings b :=
  List.filterMap_append

theorem length_readings (journal : List Entry) : (readings journal).length = reads journal := by
  induction journal with
  | nil => rfl
  | cons e journal ih =>
    cases e with
    | read brought => exact congrArg (· + 1) ih
    | opening url options => exact ih
    | opened url => exact ih
    | closing url => exact ih
    | note n => exact ih
    | poll stop => exact ih
    | reservation held requested => exact ih

/-- Lines that tell neither of a question nor of a read. -/
def Quiet (journal : List Entry) : Prop := polls journal = 0 ∧ reads journal = 0

theorem quiet_notes (notes : List Note) : Quiet (notes.map .note) := by
  induction notes with
  | nil => exact ⟨rfl, rfl⟩
  | cons n notes ih => exact ih

/-- A turn asks once and reads once. -/
theorem counts_turn {more : List Entry} (quiet : Quiet more) (r : Reading) :
    polls (.poll false :: .read r :: more) = 1 ∧ reads (.poll false :: .read r :: more) = 1 :=
  ⟨congrArg (· + 1) quiet.1, congrArg (· + 1) quiet.2⟩

end Entry

namespace Host

variable {ω σ : Type}

/-- What a read brings when the caller let it pass: it is the last one, or reading goes on
behind a chunk.  With it stands what is entered after the read. -/
inductive Turn where
  | last (more : List Entry) (result : Except LoadError (List UInt8))
  | onward (more : List Entry) (chunk : List UInt8)

/-- The turn that a reading gives, with so many bytes held. -/
def turn (h : Host ω σ) (maxSize : Nat) (url : String) (held : Nat) (r : Reading)
    (atEnd : Bool) : Turn :=
  match r with
  | .failed cause => .last [] (.error (.notRead url cause))
  | .again => .onward [] []
  | .bytes [] => .last [] (stopped url held atEnd)
  | .bytes (b :: bs) =>
    let chunk := b :: bs
    if maxSize < held + chunk.length then .last [] (.error (.incomplete url held))
    else if h.grants held chunk.length then .onward [.reservation held chunk.length] chunk
    else .last [.reservation held chunk.length] (.error (.outOfMemory url chunk.length))

/-- What a turn enters after the read. -/
def Turn.more : Turn → List Entry
  | last more _ => more
  | onward more _ => more

theorem quiet_turn (h : Host ω σ) (maxSize : Nat) (url : String) (held : Nat) (r : Reading)
    (atEnd : Bool) : Entry.Quiet (h.turn maxSize url held r atEnd).more := by
  unfold turn
  split
  · exact ⟨rfl, rfl⟩
  · exact ⟨rfl, rfl⟩
  · exact ⟨rfl, rfl⟩
  · simp only
    split
    · exact ⟨rfl, rfl⟩
    · split
      · exact ⟨rfl, rfl⟩
      · exact ⟨rfl, rfl⟩

theorem quiet_of_turn {h : Host ω σ} {maxSize held : Nat} {url : String} {r : Reading}
    {atEnd : Bool} {t : Turn} (hturn : h.turn maxSize url held r atEnd = t) :
    Entry.Quiet t.more := by
  rw [← hturn]
  exact h.quiet_turn maxSize url held r atEnd

theorem Drained.behind_nil (d : Drained ω σ) : d.behind [] = d := by
  obtain ⟨⟨record, result⟩, stream, world⟩ := d
  cases result <;> rfl

/-- The rest of a stream is read turn by turn. -/
theorem drain_eq (h : Host ω σ) (maxSize : Nat) (url : String) (held : Nat) (s : σ) (w : ω) :
    h.drain maxSize url held s w =
      if (h.poll w).1 then ⟨⟨[.poll true], .error (.interrupted url)⟩, s, (h.poll w).2⟩
      else
        let r := h.round 0 s w
        match h.turn maxSize url held r.reading r.atEnd with
        | .last more result =>
          ⟨⟨.poll false :: .read r.reading :: more, result⟩, (h.next s w).1, (h.next s w).2⟩
        | .onward more chunk =>
          ((h.drain maxSize url (held + chunk.length) (h.next s w).1 (h.next s w).2).behind
            chunk).after (.poll false :: .read r.reading :: more) := by
  fun_cases drain h maxSize url held s w with
  | case1 w₁ asked => simp [asked]
  | case2 w₁ asked cause s₂ w₂ read =>
    obtain ⟨hround, hnext⟩ := round_zero_of_read asked read
    simp only [asked, hround, hnext, turn, Bool.false_eq_true, ↓reduceIte]
  | case3 w₁ asked s₂ w₂ read =>
    obtain ⟨hround, hnext⟩ := round_zero_of_read asked read
    simp only [asked, hround, hnext, turn, Bool.false_eq_true, ↓reduceIte]
    rw [Drained.behind_nil]
    rfl
  | case4 w₁ asked s₂ w₂ read =>
    obtain ⟨hround, hnext⟩ := round_zero_of_read asked read
    simp only [asked, hround, hnext, turn, Bool.false_eq_true, ↓reduceIte]
  | case5 w₁ asked b bs s₂ w₂ read chunk long =>
    obtain ⟨hround, hnext⟩ := round_zero_of_read asked read
    simp only [asked, hround, hnext, turn, Bool.false_eq_true, ↓reduceIte]
    rw [if_pos long]
  | case6 w₁ asked b bs s₂ w₂ read chunk short granted =>
    obtain ⟨hround, hnext⟩ := round_zero_of_read asked read
    simp only [asked, hround, hnext, turn, Bool.false_eq_true, ↓reduceIte]
    rw [if_neg short, if_pos granted]
  | case7 w₁ asked b bs s₂ w₂ read chunk short refused =>
    obtain ⟨hround, hnext⟩ := round_zero_of_read asked read
    simp only [asked, hround, hnext, turn, Bool.false_eq_true, ↓reduceIte]
    rw [if_neg short, if_neg refused]

section

variable {h : Host ω σ} {maxSize : Nat} {url : String} {held : Nat} {s : σ} {w : ω}
  {more : List Entry}

theorem drain_of_stop (stop : (h.poll w).1 = true) :
    h.drain maxSize url held s w =
      ⟨⟨[.poll true], .error (.interrupted url)⟩, s, (h.poll w).2⟩ := by
  rw [drain_eq, if_pos stop]

theorem drain_of_last {result : Except LoadError (List UInt8)} (go : (h.poll w).1 = false)
    (hturn : h.turn maxSize url held (h.round 0 s w).reading (h.round 0 s w).atEnd =
      .last more result) :
    h.drain maxSize url held s w =
      ⟨⟨.poll false :: .read (h.round 0 s w).reading :: more, result⟩, (h.next s w).1,
        (h.next s w).2⟩ := by
  simp only [drain_eq, go, hturn, Bool.false_eq_true, ↓reduceIte]

theorem drain_of_onward {chunk : List UInt8} (go : (h.poll w).1 = false)
    (hturn : h.turn maxSize url held (h.round 0 s w).reading (h.round 0 s w).atEnd =
      .onward more chunk) :
    h.drain maxSize url held s w =
      ((h.drain maxSize url (held + chunk.length) (h.next s w).1 (h.next s w).2).behind
        chunk).after (.poll false :: .read (h.round 0 s w).reading :: more) := by
  rw [drain_eq]
  simp only [go, hturn, Bool.false_eq_true, ↓reduceIte]

/-- The caller is asked first. -/
theorem drain_asks (h : Host ω σ) (maxSize : Nat) (url : String) (held : Nat) (s : σ) (w : ω) :
    ∃ later, (h.drain maxSize url held s w).attempt.record = .poll (h.poll w).1 :: later := by
  cases asked : (h.poll w).1 with
  | true => exact ⟨[], by rw [drain_of_stop asked]⟩
  | false =>
    cases hturn : h.turn maxSize url held (h.round 0 s w).reading (h.round 0 s w).atEnd with
    | last more result => exact ⟨_, by rw [drain_of_last asked hturn]⟩
    | onward more chunk => exact ⟨_, by rw [drain_of_onward asked hturn]; rfl⟩

end

/-- Reading goes on after a read that was disturbed, and after a chunk that fits in. -/
theorem turn_eq_onward {h : Host ω σ} {maxSize : Nat} {url : String} {held : Nat} {r : Reading}
    {atEnd : Bool} {more : List Entry} {chunk : List UInt8}
    (hturn : h.turn maxSize url held r atEnd = .onward more chunk) :
    r = .again ∧ chunk = [] ∨ 0 < chunk.length ∧ held + chunk.length ≤ maxSize := by
  unfold turn at hturn
  split at hturn
  · cases hturn
  · cases hturn
    exact .inl ⟨rfl, rfl⟩
  · cases hturn
  · simp only at hturn
    split at hturn
    · cases hturn
    · next fits =>
      split at hturn
      · cases hturn
        exact .inr ⟨Nat.succ_pos _, Nat.le_of_not_lt fits⟩
      · cases hturn

/-- What holds of a stream whenever it holds of what the next turn leaves of it, if that goes
on, holds of every stream. -/
theorem drain_induction (h : Host ω σ) (maxSize : Nat) (url : String)
    {motive : Nat → σ → ω → Prop}
    (step : ∀ held s w,
      (∀ more chunk, (h.poll w).1 = false →
        h.turn maxSize url held (h.round 0 s w).reading (h.round 0 s w).atEnd =
          .onward more chunk →
        motive (held + chunk.length) (h.next s w).1 (h.next s w).2) → motive held s w)
    (held : Nat) (s : σ) (w : ω) : motive held s w := by
  refine step held s w fun more chunk asked hturn => ?_
  exact drain_induction h maxSize url step (held + chunk.length) (h.next s w).1 (h.next s w).2
termination_by (maxSize - held, h.patience s w)
decreasing_by
  -- A chunk takes room, of which there is only so much; a disturbed read takes patience.
  rcases turn_eq_onward hturn with ⟨again, rfl⟩ | ⟨pos, fits⟩
  · exact Prod.Lex.right _ (h.patience_lt chunkSize s w asked again)
  · exact Prod.Lex.left _ _ (by omega)

/-- What reading a stream comes to, the stream aside. -/
def Drained.outcome (d : Drained ω σ) : Outcome ω LoadError (List UInt8) := ⟨d.attempt, d.world⟩

/-- Reading the rest of a stream, as an action. -/
def draining (h : Host ω σ) (maxSize : Nat) (url : String) (held : Nat) (s : σ) :
    Action ω LoadError (List UInt8) := fun w => (h.drain maxSize url held s w).outcome

/-- Reading a stream to its end, as an action. -/
def readingAll (h : Host ω σ) (limits : Limits) (url : String) (s : σ) :
    Action ω LoadError (List UInt8) := fun w => (h.readAll limits url s w).outcome

/-- It is asking for memory, then reading turn by turn, and then a note. -/
theorem readingAll_eq (h : Host ω σ) (limits : Limits) (url : String) (s : σ) :
    h.readingAll limits url s =
      (Action.enter (.reservation 0 (h.firstReservation limits s))).bind fun _ =>
        if h.grants 0 (h.firstReservation limits s) then
          (h.draining limits.maxSize.toNat url 0 s).bind fun bytes =>
            (Action.note (loadedNote url bytes.length (h.hint limits s))).bind fun _ => pure bytes
        else Action.ofAttempt (.fail (.outOfMemory url (h.firstReservation limits s))) := by
  funext w
  rw [Action.enter_bind, readingAll, readAll]
  by_cases granted : h.grants 0 (h.firstReservation limits s) = true
  · simp only [if_pos granted]
    cases drained : (h.drain limits.maxSize.toNat url 0 s w).attempt.result with
    | error e =>
      have stays : (h.draining limits.maxSize.toNat url 0 s w).attempt.result = .error e := drained
      simp only [Action.bind_error stays, Drained.after, drained]
      rfl
    | ok bytes =>
      have stays : (h.draining limits.maxSize.toNat url 0 s w).attempt.result = .ok bytes := drained
      simp only [Action.bind_ok stays, Drained.after, drained]
      rfl
  · simp only [if_neg granted]
    rfl

end Host

end MasterPackage.Transport
