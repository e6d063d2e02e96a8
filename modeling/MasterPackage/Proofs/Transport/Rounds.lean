import MasterPackage.Proofs.Transport.Refusals
import MasterPackage.Transport.Rehearsal

/-!
# Rounds of a load

A load goes round and round: the caller is asked whether to stop, then the stream is
read.  This module follows the rounds that a host would go through with a stream if
nothing ever ended the load, and shows that the first round that does end it decides
what the load comes to.
-/

namespace MasterPackage.Transport

/-- The bytes that a read brings. -/
def Reading.chunk : Reading → List UInt8
  | .bytes chunk => chunk
  | _ => []

/-- One round: the caller's answer, what the read brings, and whether the stream says
after it that its end was seen. -/
structure Round where
  stop : Bool
  reading : Reading
  atEnd : Bool
  deriving DecidableEq, Repr

namespace Round

/-- Whether a round leaves a load going, whatever the limits are. -/
def isQuiet (r : Round) : Bool := !r.stop && r.reading.goesOn

/-- Whether a round ends a load that holds so many bytes. -/
def ends (maxSize held : Nat) (r : Round) : Bool :=
  r.stop || !r.reading.goesOn || decide (maxSize < held + r.reading.chunk.length)

/-- What the round that ends a load makes of the bytes held before it. -/
def verdict (url : String) (held : List UInt8) (r : Round) : Except LoadError (List UInt8) :=
  if r.stop then .error (.interrupted url)
  else
    match r.reading with
    | .failed cause => .error (.notRead url cause)
    | .bytes [] =>
      if r.atEnd = false then .error (.incomplete url held.length)
      else if held = [] then .error (.empty url)
      else .ok held
    | _ => .error (.incomplete url held.length)

theorem ends_eq_false_iff {maxSize held : Nat} {r : Round} :
    r.ends maxSize held = false ↔
      r.isQuiet = true ∧ held + r.reading.chunk.length ≤ maxSize := by
  simp [ends, isQuiet]

/-- The stream that stops at its end is the only one that leaves a document. -/
theorem verdict_eq_ok_iff {url : String} {held data : List UInt8} {r : Round} :
    r.verdict url held = .ok data ↔
      r = ⟨false, .bytes [], true⟩ ∧ held = data ∧ data ≠ [] := by
  obtain ⟨stop, reading, atEnd⟩ := r
  constructor
  · intro h
    cases stop with
    | true => simp [verdict] at h
    | false =>
      cases reading with
      | again => simp [verdict] at h
      | failed cause => simp [verdict] at h
      | bytes chunk =>
        cases chunk with
        | cons b bs => simp [verdict] at h
        | nil =>
          cases atEnd with
          | false => simp [verdict] at h
          | true =>
            by_cases hheld : held = []
            · simp [verdict, hheld] at h
            · simp only [verdict, Bool.false_eq_true, ↓reduceIte, hheld, Except.ok.injEq,
                Bool.true_eq_false] at h
              subst h
              exact ⟨rfl, rfl, hheld⟩
  · intro h
    rcases h with ⟨hr, rfl, hne⟩
    cases hr
    simp [verdict, hne]

end Round

namespace Host

variable {ω σ : Type}

/-! ## The rounds of a host -/

/-- The stream and the world after one round. -/
def next (h : Host ω σ) (s : σ) (w : ω) : σ × ω := (h.read chunkSize s (h.poll w).2).2

/-- The round of a given number, the first having number zero. -/
def round (h : Host ω σ) : Nat → σ → ω → Round
  | 0, s, w => ⟨(h.poll w).1, (h.read chunkSize s (h.poll w).2).1, h.atEnd (h.next s w).1⟩
  | k + 1, s, w => h.round k (h.next s w).1 (h.next s w).2

/-- What the rounds before the one of a given number bring, chunk after chunk. -/
def brought (h : Host ω σ) : Nat → σ → ω → List UInt8
  | 0, _, _ => []
  | k + 1, s, w => (h.round 0 s w).reading.chunk ++ h.brought k (h.next s w).1 (h.next s w).2

/-- The stream brings the data in some number of rounds, none of which the caller or
the stream breaks off, and then stops at its end. -/
def Delivers (h : Host ω σ) (s : σ) (w : ω) (data : List UInt8) : Prop :=
  ∃ k, (∀ j < k, (h.round j s w).isQuiet = true) ∧
    h.round k s w = ⟨false, .bytes [], true⟩ ∧ h.brought k s w = data

theorem brought_succ (h : Host ω σ) (k : Nat) (s : σ) (w : ω) :
    h.brought (k + 1) s w = h.brought k s w ++ (h.round k s w).reading.chunk := by
  induction k generalizing s w with
  | zero => simp [brought]
  | succ k ih =>
    rw [brought, ih, brought, List.append_assoc]
    rfl

theorem length_brought_le (h : Host ω σ) {j k : Nat} (hjk : j ≤ k) (s : σ) (w : ω) :
    (h.brought j s w).length ≤ (h.brought k s w).length := by
  induction hjk with
  | refl => exact Nat.le_refl _
  | step _ ih =>
    rw [brought_succ, List.length_append]
    omega

theorem round_zero_of_read {h : Host ω σ} {s s₂ : σ} {w w₁ w₂ : ω} {stop : Bool} {r : Reading}
    (asked : h.poll w = (stop, w₁)) (read : h.read chunkSize s w₁ = (r, s₂, w₂)) :
    h.round 0 s w = ⟨stop, r, h.atEnd s₂⟩ ∧ h.next s w = (s₂, w₂) := by
  simp [round, next, asked, read]

/-- A round that ends nothing brings its chunk in front of what the rest of the stream
delivers. -/
theorem Delivers.cons {h : Host ω σ} {s : σ} {w : ω} {data : List UInt8}
    (quiet : (h.round 0 s w).isQuiet = true)
    (later : h.Delivers (h.next s w).1 (h.next s w).2 data) :
    h.Delivers s w ((h.round 0 s w).reading.chunk ++ data) := by
  obtain ⟨k, others, ending, rfl⟩ := later
  refine ⟨k + 1, ?_, ending, rfl⟩
  intro j hj
  cases j with
  | zero => exact quiet
  | succ j => exact others j (by omega)

/-- A stream delivers nothing if it stops at its end, and otherwise the chunk of its first round
and what it delivers after that. -/
theorem delivers_iff {h : Host ω σ} {s : σ} {w : ω} {data : List UInt8} :
    h.Delivers s w data ↔
      (h.round 0 s w = ⟨false, .bytes [], true⟩ ∧ data = []) ∨
        ∃ rest, (h.round 0 s w).isQuiet = true ∧ h.Delivers (h.next s w).1 (h.next s w).2 rest ∧
          data = (h.round 0 s w).reading.chunk ++ rest := by
  constructor
  · intro delivers
    obtain ⟨k, quiet, ending, rfl⟩ := delivers
    cases k with
    | zero => exact .inl ⟨ending, rfl⟩
    | succ k =>
      have later : h.Delivers (h.next s w).1 (h.next s w).2
          (h.brought k (h.next s w).1 (h.next s w).2) :=
        ⟨k, fun j hj => quiet (j + 1) (by omega), ending, rfl⟩
      exact .inr ⟨_, quiet 0 (by omega), later, rfl⟩
  · intro first
    rcases first with ⟨ending, rfl⟩ | ⟨rest, quiet, later, rfl⟩
    · exact ⟨0, nofun, ending, rfl⟩
    · exact .cons quiet later

theorem Drained.map_result_behind (before chunk : List UInt8) (d : Drained ω σ) :
    (d.behind chunk).attempt.result.map (before ++ ·) =
      d.attempt.result.map (before ++ chunk ++ ·) := by
  cases hd : d.attempt.result <;> simp [behind, hd, Except.map]

/-! ## The first round that ends a load -/

/-- The round of number `k` ends a load that begins with so many bytes held, and no
round before it does. -/
structure FirstEnd (h : Host ω σ) (maxSize held : Nat) (s : σ) (w : ω) (k : Nat) : Prop where
  ends : (h.round k s w).ends maxSize (held + (h.brought k s w).length) = true
  quiet : ∀ j < k, (h.round j s w).ends maxSize (held + (h.brought j s w).length) = false

theorem FirstEnd.unique {h : Host ω σ} {maxSize held : Nat} {s : σ} {w : ω} {j k : Nat}
    (hj : h.FirstEnd maxSize held s w j) (hk : h.FirstEnd maxSize held s w k) : j = k := by
  rcases Nat.lt_trichotomy j k with hlt | heq | hgt
  · have quiet := hk.quiet j hlt
    rw [hj.ends] at quiet
    cases quiet
  · exact heq
  · have quiet := hj.quiet k hgt
    rw [hk.ends] at quiet
    cases quiet

theorem FirstEnd.zero {h : Host ω σ} {maxSize held : Nat} {s : σ} {w : ω}
    (ends : (h.round 0 s w).ends maxSize held = true) : h.FirstEnd maxSize held s w 0 :=
  ⟨ends, fun _ hj => absurd hj (Nat.not_lt_zero _)⟩

/-- A round that ends nothing comes before those of the stream that it leaves. -/
theorem FirstEnd.succ {h : Host ω σ} {maxSize held : Nat} {s : σ} {w : ω} {k : Nat}
    (quiet : (h.round 0 s w).ends maxSize held = false)
    (later : h.FirstEnd maxSize (held + (h.round 0 s w).reading.chunk.length)
      (h.next s w).1 (h.next s w).2 k) :
    h.FirstEnd maxSize held s w (k + 1) := by
  constructor
  · have := later.ends
    rw [Nat.add_assoc, ← List.length_append] at this
    exact this
  · intro j hj
    cases j with
    | zero => exact quiet
    | succ j =>
      have := later.quiet j (by omega)
      rw [Nat.add_assoc, ← List.length_append] at this
      exact this

/-- The rest of a stream, with some bytes held before it, is read up to the first round
that ends the load, and that round decides, unless memory is refused before. -/
theorem drain_decided {h : Host ω σ} {maxSize : Nat} {url : String} {held : Nat} {s : σ} {w : ω}
    (granted : ¬h.Refuses (h.drain maxSize url held s w).attempt.record) (fits : held ≤ maxSize)
    (before : List UInt8) (hbefore : before.length = held) :
    ∃ k, h.FirstEnd maxSize held s w k ∧
      (h.drain maxSize url held s w).attempt.result.map (before ++ ·) =
        (h.round k s w).verdict url (before ++ h.brought k s w) := by
  fun_induction drain h maxSize url held s w generalizing before with
  | case1 held s w w₁ asked =>
    have hstop : (h.round 0 s w).stop = true := by simp [round, asked]
    refine ⟨0, .zero (by simp [Round.ends, hstop]), ?_⟩
    rw [Round.verdict, if_pos hstop]
    rfl
  | case2 held s w w₁ asked cause s₂ w₂ read =>
    obtain ⟨hround, -⟩ := round_zero_of_read asked read
    refine ⟨0, .zero (by rw [hround]; rfl), ?_⟩
    rw [hround]
    rfl
  | case3 held s w w₁ asked s₂ w₂ read ih =>
    obtain ⟨hround, hnext⟩ := round_zero_of_read asked read
    obtain ⟨k, first, result⟩ := ih (mt refuses_turn_iff.2 granted) fits before hbefore
    refine ⟨k + 1, .succ ?_ ?_, ?_⟩
    · rw [hround, Round.ends_eq_false_iff]
      exact ⟨rfl, fits⟩
    · rw [hround, hnext]
      exact first
    · rw [round, brought, hround, hnext]
      exact result
  | case4 held s w w₁ asked s₂ w₂ read =>
    obtain ⟨hround, -⟩ := round_zero_of_read asked read
    refine ⟨0, .zero (by rw [hround]; rfl), ?_⟩
    rw [hround]
    cases hend : h.atEnd s₂ with
    | false => simp [stopped, Round.verdict, brought, hbefore, Except.map]
    | true =>
      have hnil : held = 0 ↔ before = [] := by rw [← hbefore, List.length_eq_zero_iff]
      by_cases hempty : before = [] <;>
        simp [stopped, Round.verdict, brought, hnil, hempty, Except.map]
  | case5 held s w w₁ asked b bs s₂ w₂ read chunk long =>
    obtain ⟨hround, -⟩ := round_zero_of_read asked read
    refine ⟨0, .zero ?_, ?_⟩
    · rw [hround]
      exact decide_eq_true long
    · rw [hround]
      simp [Round.verdict, brought, hbefore, Except.map]
  | case6 held s w w₁ asked b bs s₂ w₂ read chunk short room ih =>
    obtain ⟨hround, hnext⟩ := round_zero_of_read asked read
    have fits' : held + chunk.length ≤ maxSize := Nat.le_of_not_lt short
    have later := fun refuses => granted (refuses_turn_iff.2 (refuses_reservation_iff.2 refuses))
    obtain ⟨k, first, result⟩ :=
      ih (later ∘ .inr) fits' (before ++ chunk) (by rw [List.length_append, hbefore])
    refine ⟨k + 1, .succ ?_ ?_, ?_⟩
    · rw [hround, Round.ends_eq_false_iff]
      exact ⟨rfl, fits'⟩
    · rw [hround, hnext]
      exact first
    · rw [round, brought, hround, hnext, ← List.append_assoc]
      exact (Drained.map_result_behind before chunk _).trans result
  | case7 held s w w₁ asked b bs s₂ w₂ read chunk short refused =>
    refine absurd (refuses_turn_iff.2 (refuses_reservation_iff.2 (.inl ?_))) granted
    exact Bool.eq_false_iff.2 refused

/-! ## What a load comes to -/

/-- The stream that a load at a location reads, and the world in which it begins to: a
stream that was supplied, or else the one that the host opens. -/
inductive Serves (h : Host ω σ) (options : Options) (url : String) :
    Option σ → ω → σ → ω → Prop
  | supplied (s : σ) (w : ω) : Serves h options url (some s) w s w
  | opened {s : σ} {w : ω} :
    (h.openStream url options w).attempt.result = .ok s →
    Serves h options url none w s (h.openStream url options w).world

theorem result_readAll {h : Host ω σ} {limits : Limits} {s : σ}
    (granted : h.grants 0 (h.firstReservation limits s) = true) (url : String) (w : ω) :
    (h.readAll limits url s w).attempt.result =
      (h.drain limits.maxSize.toNat url 0 s w).attempt.result := by
  rw [readAll, if_pos granted]
  cases hd : (h.drain limits.maxSize.toNat url 0 s w).attempt.result <;>
    simp [Drained.after, hd]

theorem Serves.result_load {h : Host ω σ} {options : Options} {url : String}
    {supplied : Option σ} {s : σ} {w w₁ : ω} (served : h.Serves options url supplied w s w₁)
    (limits : Limits) :
    (h.load limits options url supplied w).attempt.result =
      (h.readAll limits url s w₁).attempt.result := by
  cases served with
  | supplied => rfl
  | opened opens =>
    have entered :
        (Action.enter (ε := LoadError) (.opening url options) w).attempt.result = .ok () := rfl
    rw [load_opened, Action.result_bind_of_ok entered]
    exact Action.result_bind_of_ok opens _

/-- All the memory that a load asks for it asks for while it reads. -/
theorem Serves.refuses_load_iff {h : Host ω σ} {limits : Limits} {options : Options} {url : String}
    {supplied : Option σ} {s : σ} {w w₁ : ω} (served : h.Serves options url supplied w s w₁) :
    h.Refuses (h.load limits options url supplied w).attempt.record ↔
      h.Refuses (h.readAll limits url s w₁).attempt.record := by
  cases served with
  | supplied => rfl
  | opened available =>
    have opening := h.not_refuses_openStream url options w
    have closing : ¬h.Refuses [.closing url, .note (closedNote url)] := by simp [Refuses]
    rw [load_opened, Action.enter_bind, Action.bind_ok available]
    simp only [readAndClose]
    rw [refuses_cons_iff (e := .opening url options) (by simp), refuses_append_iff,
      List.cons_append, refuses_cons_iff (e := .opened url) (by simp), refuses_append_iff]
    simp only [opening, closing, false_or, or_false]

/-- No request is refused to a load if its first one is not and none behind a read is. -/
theorem Serves.not_refuses_load_iff {h : Host ω σ} {limits : Limits} {options : Options}
    {url : String} {supplied : Option σ} {s : σ} {w w₁ : ω}
    (served : h.Serves options url supplied w s w₁) :
    ¬h.Refuses (h.load limits options url supplied w).attempt.record ↔
      h.grants 0 (h.firstReservation limits s) = true ∧
        ¬h.Refuses (h.drain limits.maxSize.toNat url 0 s w₁).attempt.record := by
  rw [served.refuses_load_iff, refuses_readAll_iff]
  cases h.grants 0 (h.firstReservation limits s) <;> simp

/-- A load that is refused no memory is decided by the first round that ends it. -/
theorem Serves.load_decided {h : Host ω σ} {limits : Limits} {options : Options} {url : String}
    {supplied : Option σ} {s : σ} {w w₁ : ω} (served : h.Serves options url supplied w s w₁)
    (granted : ¬h.Refuses (h.load limits options url supplied w).attempt.record) :
    ∃ k, h.FirstEnd limits.maxSize.toNat 0 s w₁ k ∧
      (h.load limits options url supplied w).attempt.result =
        (h.round k s w₁).verdict url (h.brought k s w₁) := by
  obtain ⟨room, later⟩ := served.not_refuses_load_iff.1 granted
  obtain ⟨k, first, result⟩ := drain_decided later (Nat.zero_le _) [] rfl
  refine ⟨k, first, ?_⟩
  rw [served.result_load, result_readAll room]
  cases hd : (h.drain limits.maxSize.toNat url 0 s w₁).attempt.result <;>
    simpa [hd, Except.map] using result

/-- The last of the bytes brought before a load's end still fitted in. -/
theorem FirstEnd.length_brought {h : Host ω σ} {maxSize : Nat} {s : σ} {w : ω} {k : Nat}
    (first : h.FirstEnd maxSize 0 s w k) : (h.brought k s w).length ≤ maxSize := by
  cases k with
  | zero => exact Nat.zero_le _
  | succ k =>
    have quiet := first.quiet k (Nat.lt_succ_self k)
    rw [Nat.zero_add, Round.ends_eq_false_iff] at quiet
    rw [brought_succ, List.length_append]
    exact quiet.2

/-- Data of an admissible size are delivered up to the first end of the load. -/
theorem firstEnd_of_delivers {h : Host ω σ} {maxSize : Nat} {s : σ} {w : ω} {k : Nat}
    (quiet : ∀ j < k, (h.round j s w).isQuiet = true)
    (ending : h.round k s w = ⟨false, .bytes [], true⟩)
    (fits : (h.brought k s w).length ≤ maxSize) : h.FirstEnd maxSize 0 s w k := by
  constructor
  · rw [ending]
    rfl
  · intro j hj
    rw [Nat.zero_add, Round.ends_eq_false_iff]
    refine ⟨quiet j hj, ?_⟩
    rw [← List.length_append, ← brought_succ]
    exact Nat.le_trans (h.length_brought_le hj s w) fits

/-- A load leaves exactly the data that the stream delivers, if there are any and not too
many of them. -/
theorem Serves.load_eq_ok_iff {h : Host ω σ} {limits : Limits} {options : Options} {url : String}
    {supplied : Option σ} {s : σ} {w w₁ : ω} (served : h.Serves options url supplied w s w₁)
    (granted : ¬h.Refuses (h.load limits options url supplied w).attempt.record)
    {data : List UInt8} :
    (h.load limits options url supplied w).attempt.result = .ok data ↔
      h.Delivers s w₁ data ∧ data ≠ [] ∧ data.length ≤ limits.maxSize.toNat := by
  obtain ⟨k, first, result⟩ := served.load_decided granted
  rw [result, Round.verdict_eq_ok_iff]
  constructor
  · intro h
    rcases h with ⟨ending, rfl, hne⟩
    refine ⟨⟨k, fun j hj => ?_, ending, rfl⟩, hne, first.length_brought⟩
    exact (Round.ends_eq_false_iff.1 (first.quiet j hj)).1
  · intro h
    rcases h with ⟨⟨n, quiet, ending, rfl⟩, hne, fits⟩
    obtain rfl := first.unique (firstEnd_of_delivers quiet ending fits)
    exact ⟨ending, rfl, hne⟩

/-- Unless memory that it asks for is refused, a load is decided by the first of its
rounds that ends it: a caller who wants to stop, a failed read, a chunk that does not fit
in, or a read that brings nothing.  It leaves a document exactly when the stream delivers
one of an admissible size; how the bytes are cut into chunks, how often a read is
disturbed, and what size was reported or expected make no difference to it. -/
theorem load_decided_by_first_end {h : Host ω σ} {limits : Limits} {options : Options}
    {url : String} {supplied : Option σ} {s : σ} {w w₁ : ω}
    (served : h.Serves options url supplied w s w₁)
    (granted : ¬h.Refuses (h.load limits options url supplied w).attempt.record) :
    (∃ k, (h.round k s w₁).ends limits.maxSize.toNat (h.brought k s w₁).length = true ∧
      (∀ j < k,
        (h.round j s w₁).ends limits.maxSize.toNat (h.brought j s w₁).length = false) ∧
      (h.load limits options url supplied w).attempt.result =
        (h.round k s w₁).verdict url (h.brought k s w₁)) ∧
    ∀ data, (h.load limits options url supplied w).attempt.result = .ok data ↔
      h.Delivers s w₁ data ∧ data ≠ [] ∧ data.length ≤ limits.maxSize.toNat := by
  obtain ⟨k, first, result⟩ := served.load_decided granted
  have ends := first.ends
  have quiet := first.quiet
  simp only [Nat.zero_add] at ends quiet
  exact ⟨⟨k, ends, quiet, result⟩, fun _ => served.load_eq_ok_iff granted⟩

end Host

/-- A rehearsed load is refused no memory if there is enough for what it expects and for what its
limit admits. -/
theorem Rehearsal.not_refuses_load (r : Rehearsal) {limits : Limits} {options : Options}
    {url : String} {supplied : Option Stream} {s : Stream} {w w₁ : Signals}
    (served : r.host.Serves options url supplied w s w₁)
    (first : r.host.firstReservation limits s < memory)
    (later : limits.maxSize.toNat < memory) :
    ¬r.host.Refuses (r.host.load limits options url supplied w).attempt.record := by
  rw [served.not_refuses_load_iff]
  refine ⟨decide_eq_true (by rwa [Nat.zero_add]), ?_⟩
  apply Host.not_refuses_drain
  intro held n fits
  exact decide_eq_true (Nat.lt_of_le_of_lt fits later)

namespace Host

/-- Four bytes in two chunks, each after a disturbed read, fill a limit of four; the
size that the stream reports is wrong. -/
theorem load_of_disturbed_stream :
    let h := (⟨[], .afterPolls 5⟩ : Rehearsal).host
    let s := Stream.scripted (.start [.again, .data [1, 2, 3], .again, .data [4]] .played (some 70))
    let x := (h.load ⟨8, 4⟩ .empty "mem://a" (some s) ⟨false, 0⟩).attempt
    h.Serves .empty "mem://a" (some s) ⟨false, 0⟩ s ⟨false, 0⟩ ∧ ¬h.Refuses x.record ∧
      x.result = .ok [1, 2, 3, 4] := by
  intro h s x
  have served : h.Serves .empty "mem://a" (some s) ⟨false, 0⟩ s ⟨false, 0⟩ := .supplied s _
  have granted : ¬h.Refuses x.record :=
    Rehearsal.not_refuses_load _ served (by decide) (by decide)
  have delivers : h.Delivers s ⟨false, 0⟩ [1, 2, 3, 4] := ⟨4, by decide, by decide, by decide⟩
  exact ⟨served, granted,
    ((load_decided_by_first_end served granted).2 _).2 ⟨delivers, by decide, by decide⟩⟩

end Host

end MasterPackage.Transport
