import MasterPackage.Proofs.Transport.Traffic

/-!
# Memory for a load

A load asks for memory before its first read, for one byte more than it expects, and after
each read for what that brought.  Behind every read the bytes held and those asked for are
together the bytes brought so far, which the limit bounds.  The first request is bounded as
well if the stream tells its size, which counts up to the limit only; the number that is
expected otherwise counts in full.
-/

namespace MasterPackage.Transport

/-- One more than a number, except for the largest. -/
def successor (n : Nat) : Nat := min (n + 1) maxCount

theorem successor_mono {m n : Nat} (h : m ≤ n) : successor m ≤ successor n := by
  unfold successor
  omega

theorem le_successor {n : Nat} (h : n ≤ maxCount) : n ≤ successor n := by
  unfold successor
  omega

namespace Entry

/-- The bytes that the reads of a journal bring. -/
def received (journal : List Entry) : List UInt8 := (readings journal).flatMap Reading.chunk

theorem received_append (a b : List Entry) : received (a ++ b) = received a ++ received b := by
  rw [received, readings_append, List.flatMap_append]
  rfl

/-- A request makes room for all the bytes that were brought, which the limit admits. -/
def MakesRoom (limit total : Nat) : Entry → Prop
  | reservation held requested => held + requested = total ∧ total ≤ limit
  | _ => True

/-- What a read brings can be added in 64 bits to what was brought before. -/
def AddsUp (total : Nat) : Entry → Prop
  | read brought => total + brought.chunk.length < UInt64.size
  | _ => True

/-- Every line has a property that depends on the number of bytes brought before it, with so
many of them brought before the journal. -/
def Each (P : Nat → Entry → Prop) (total : Nat) (journal : List Entry) : Prop :=
  ∀ before e after, journal = before ++ e :: after → P (total + (received before).length) e

variable {P : Nat → Entry → Prop} {total : Nat} {a b : List Entry} {e : Entry}

theorem Each.nil : Each P total [] := by
  intro before e after split
  cases before with
  | nil => cases split
  | cons => cases split

theorem Each.cons (first : P total e) (later : Each P (total + (received [e]).length) b) :
    Each P total (e :: b) := by
  intro before e' after split
  cases before with
  | nil =>
    cases split
    exact first
  | cons d before =>
    cases split
    have behind := later before e' after rfl
    have brought : received (e :: before) = received [e] ++ received before :=
      received_append [e] before
    rwa [Nat.add_assoc, ← List.length_append, ← brought] at behind

theorem Each.append (first : Each P total a)
    (later : Each P (total + (received a).length) b) : Each P total (a ++ b) := by
  induction a generalizing total with
  | nil => exact later
  | cons e a ih =>
    refine .cons (first [] e a rfl) (ih ?_ ?_)
    · intro before e' after split
      have behind := first (e :: before) e' after (by rw [split]; rfl)
      have brought : received (e :: before) = received [e] ++ received before :=
        received_append [e] before
      rwa [brought, List.length_append, ← Nat.add_assoc] at behind
    · have brought : received (e :: a) = received [e] ++ received a := received_append [e] a
      rwa [brought, List.length_append, ← Nat.add_assoc] at later

end Entry

namespace Host

variable {ω σ : Type} {h : Host ω σ}

/-- A host on a machine of 64 bits: no buffer takes half of what can be addressed, and a read
brings no more than was asked for. -/
structure On64Bits (h : Host ω σ) : Prop where
  buffers : ∀ held n, h.grants held n = true → held + n < 0x8000000000000000
  chunks : ∀ s w, (h.read chunkSize s w).1.chunk.length ≤ chunkSize

/-- The stream tells how long it is, and that it is not empty. -/
def TellsSize (h : Host ω σ) (s : σ) : Prop := ∃ n, h.size? s = some (n + 1)

/-! ## One turn -/

section

variable {maxSize held : Nat} {url : String} {r : Reading} {atEnd : Bool} {more : List Entry}
  {result : Except LoadError (List UInt8)} {chunk : List UInt8}

/-- A turn asks for no memory, or for that of the chunk it brought if the limit leaves room. -/
theorem turn_more (h : Host ω σ) (maxSize : Nat) (url : String) (held : Nat) (r : Reading)
    (atEnd : Bool) :
    (h.turn maxSize url held r atEnd).more = [] ∨
      (h.turn maxSize url held r atEnd).more = [.reservation held r.chunk.length] ∧
        held + r.chunk.length ≤ maxSize := by
  unfold turn
  split
  · exact .inl rfl
  · exact .inl rfl
  · exact .inl rfl
  · dsimp only
    split
    · exact .inl rfl
    · next fits =>
      split
      · exact .inr ⟨rfl, Nat.le_of_not_lt fits⟩
      · exact .inr ⟨rfl, Nat.le_of_not_lt fits⟩

/-- Memory is there for a chunk behind which reading goes on. -/
theorem grants_of_onward (hturn : h.turn maxSize url held r atEnd = .onward more chunk) :
    chunk = [] ∨ h.grants held chunk.length = true := by
  unfold turn at hturn
  split at hturn
  · cases hturn
  · cases hturn
    exact .inl rfl
  · cases hturn
  · dsimp only at hturn
    split at hturn
    · cases hturn
    · split at hturn
      · next granted =>
        cases hturn
        exact .inr granted
      · cases hturn

/-- The last turn leaves a document only if there is one, and it tells truly how much was
read. -/
theorem result_of_last (hturn : h.turn maxSize url held r atEnd = .last more result) :
    (∀ data, result = .ok data → data = [] ∧ 0 < held) ∧
      ∀ u n, result = .error (.incomplete u n) → n = held := by
  unfold turn at hturn
  split at hturn
  · cases hturn
    exact ⟨nofun, nofun⟩
  · cases hturn
  · cases hturn
    unfold stopped
    split
    · refine ⟨nofun, fun u n told => ?_⟩
      cases told
      rfl
    · split
      · exact ⟨nofun, nofun⟩
      · next some =>
        refine ⟨fun data told => ?_, nofun⟩
        cases told
        exact ⟨rfl, Nat.pos_of_ne_zero some⟩
  · dsimp only at hturn
    split at hturn
    · cases hturn
      refine ⟨nofun, fun u n told => ?_⟩
      cases told
      rfl
    · split at hturn
      · cases hturn
      · cases hturn
        exact ⟨nofun, nofun⟩

end

theorem received_turn {more : List Entry} (quiet : Entry.Quiet more) (r : Reading) :
    Entry.received (.poll false :: .read r :: more) = r.chunk := by
  have none : Entry.readings more = [] := by
    rw [← List.length_eq_zero_iff, Entry.length_readings]
    exact quiet.2
  have front : Entry.received (.poll false :: .read r :: more) =
      r.chunk ++ (Entry.readings more).flatMap Reading.chunk := rfl
  rw [front, none]
  exact List.append_nil _

theorem received_read (r : Reading) : Entry.received [.read r] = r.chunk := List.append_nil _

/-! ## The rest of a stream -/

theorem Drained.result_behind_eq_ok_iff {d : Drained ω σ} {chunk data : List UInt8} :
    (d.behind chunk).attempt.result = .ok data ↔
      ∃ rest, d.attempt.result = .ok rest ∧ chunk ++ rest = data := by
  unfold behind
  cases d.attempt.result with
  | error f => simp [Except.map]
  | ok bytes => simp [Except.map]

/-- What every turn enters as long as the number of bytes held has some property is entered by
reading the rest of a stream, if the property stays when reading goes on. -/
theorem each_drain (h : Host ω σ) (maxSize : Nat) (url : String) {P : Nat → Entry → Prop}
    (I : Nat → Prop) (polls : ∀ held stop, P held (.poll stop))
    (turns : ∀ held s w, I held →
      Entry.Each P held (.read (h.round 0 s w).reading ::
        (h.turn maxSize url held (h.round 0 s w).reading (h.round 0 s w).atEnd).more))
    (onward : ∀ held r atEnd more chunk, I held →
      h.turn maxSize url held r atEnd = .onward more chunk → I (held + chunk.length))
    (held : Nat) (s : σ) (w : ω) (hI : I held) :
    Entry.Each P held (h.drain maxSize url held s w).attempt.record := by
  induction held, s, w using h.drain_induction maxSize url with
  | step held s w ih =>
    cases asked : (h.poll w).1 with
    | true =>
      rw [drain_of_stop asked]
      exact .cons (polls held true) .nil
    | false =>
      have entered := Entry.Each.cons (polls held false) (turns held s w hI)
      cases hturn : h.turn maxSize url held (h.round 0 s w).reading (h.round 0 s w).atEnd with
      | last more result =>
        rw [drain_of_last asked hturn]
        rwa [hturn] at entered
      | onward more chunk =>
        have brought : (h.round 0 s w).reading.chunk = chunk := (isLast_of_onward hturn).2
        have quiet : Entry.Quiet more := quiet_of_turn hturn
        rw [hturn] at entered
        rw [drain_of_onward asked hturn]
        refine .append entered ?_
        rw [received_turn quiet, brought]
        exact ih more chunk asked hturn (onward held _ _ more chunk hI hturn)

/-- Reading the rest of a stream asks for the memory of what it brings, and for no more than the
limit leaves. -/
theorem makesRoom_drain (h : Host ω σ) (maxSize : Nat) (url : String) (held : Nat) (s : σ)
    (w : ω) :
    Entry.Each (Entry.MakesRoom maxSize) held (h.drain maxSize url held s w).attempt.record := by
  refine h.each_drain maxSize url (fun _ => True) (fun _ _ => trivial) ?_
    (fun _ _ _ _ _ _ _ => trivial) held s w trivial
  intro held s w _
  refine .cons trivial ?_
  rw [received_read]
  rcases h.turn_more maxSize url held (h.round 0 s w).reading (h.round 0 s w).atEnd with
    none | ⟨some, fits⟩
  · rw [none]
    exact .nil
  · rw [some]
    exact .cons ⟨rfl, fits⟩ .nil

/-- On a machine of 64 bits, the sums that are compared with the limit are numbers of 64 bits. -/
theorem addsUp_drain (machine : h.On64Bits) (maxSize : Nat) (url : String) (held : Nat) (s : σ)
    (w : ω) (small : held < 0x8000000000000000) :
    Entry.Each Entry.AddsUp held (h.drain maxSize url held s w).attempt.record := by
  refine h.each_drain maxSize url (· < 0x8000000000000000) (fun _ _ => trivial) ?_ ?_ held s w small
  · intro held s w small
    have brief : (h.round 0 s w).reading.chunk.length ≤ chunkSize :=
      machine.chunks s (h.poll w).2
    have sum : held + (h.round 0 s w).reading.chunk.length < UInt64.size := by
      have hsize : UInt64.size = 0x10000000000000000 := rfl
      have hchunk : chunkSize = 16384 := rfl
      omega
    refine .cons sum ?_
    rcases h.turn_more maxSize url held (h.round 0 s w).reading (h.round 0 s w).atEnd with
      none | ⟨some, -⟩
    · rw [none]
      exact .nil
    · rw [some]
      exact .cons trivial .nil
  · intro held r atEnd more chunk small hturn
    rcases grants_of_onward hturn with rfl | granted
    · exact small
    · exact machine.buffers held chunk.length granted

/-- With so many bytes held, a document comes of the rest only if there is a byte and the limit
admits all of them, and no more than the limit is ever told to have been read. -/
theorem sizes_drain (h : Host ω σ) (maxSize : Nat) (url : String) (held : Nat) (s : σ) (w : ω)
    (fits : held ≤ maxSize) :
    (∀ data, (h.drain maxSize url held s w).attempt.result = .ok data →
        0 < held + data.length ∧ held + data.length ≤ maxSize) ∧
      ∀ u n, (h.drain maxSize url held s w).attempt.result = .error (.incomplete u n) →
        n ≤ maxSize := by
  induction held, s, w using h.drain_induction maxSize url with
  | step held s w ih =>
    cases asked : (h.poll w).1 with
    | true =>
      rw [drain_of_stop asked]
      exact ⟨nofun, nofun⟩
    | false =>
      cases hturn : h.turn maxSize url held (h.round 0 s w).reading (h.round 0 s w).atEnd with
      | last more result =>
        rw [drain_of_last asked hturn]
        obtain ⟨document, incomplete⟩ := result_of_last hturn
        refine ⟨fun data told => ?_, fun u n told => ?_⟩
        · obtain ⟨rfl, some⟩ := document data told
          exact ⟨some, fits⟩
        · rw [incomplete u n told]
          exact fits
      | onward more chunk =>
        rw [drain_of_onward asked hturn]
        have fits' : held + chunk.length ≤ maxSize := by
          rcases turn_eq_onward hturn with ⟨-, rfl⟩ | ⟨-, fits'⟩
          · exact fits
          · exact fits'
        obtain ⟨document, incomplete⟩ := ih more chunk asked hturn fits'
        refine ⟨fun data told => ?_, fun u n told => ?_⟩
        · rcases Drained.result_behind_eq_ok_iff.1 told with ⟨rest, later, rfl⟩
          rw [List.length_append, ← Nat.add_assoc]
          exact document rest later
        · exact incomplete u n (Drained.result_behind_eq_error_iff.1 told)

/-! ## Whole loads -/

/-- A stream that tells its size is expected to fill the limit at most; otherwise the number
that is expected is the one that was configured. -/
theorem hint_cases (h : Host ω σ) (limits : Limits) (s : σ) :
    h.TellsSize s ∧ h.hint limits s ≤ limits.maxSize.toNat ∨
      ¬h.TellsSize s ∧ h.hint limits s = limits.sizeHint.toNat := by
  unfold TellsSize hint
  split
  · next n told => exact .inl ⟨⟨n, told⟩, Nat.min_le_right _ _⟩
  · next untold => exact .inr ⟨fun tells => tells.elim fun n told => untold n told, rfl⟩

theorem toNat_le_maxCount (n : UInt64) : n.toNat ≤ maxCount := Nat.le_pred_of_lt n.toNat_lt_size

theorem hint_le_maxCount (h : Host ω σ) (limits : Limits) (s : σ) :
    h.hint limits s ≤ maxCount := by
  rcases h.hint_cases limits s with ⟨-, bounded⟩ | ⟨-, same⟩
  · exact Nat.le_trans bounded (toNat_le_maxCount _)
  · rw [same]
    exact toNat_le_maxCount _

/-- The first request keeps within the limit exactly if the stream tells its size or the number
that is expected otherwise does. -/
theorem first_request_le_iff (h : Host ω σ) (limits : Limits) (s : σ) :
    h.firstReservation limits s ≤ successor limits.maxSize.toNat ↔
      h.TellsSize s ∨ successor limits.sizeHint.toNat ≤ successor limits.maxSize.toNat := by
  have first : h.firstReservation limits s = successor (h.hint limits s) := rfl
  rw [first]
  rcases h.hint_cases limits s with ⟨tells, bounded⟩ | ⟨untold, same⟩
  · exact ⟨fun _ => .inl tells, fun _ => successor_mono bounded⟩
  · rw [same]
    exact ⟨.inr, fun within => within.resolve_left untold⟩

/-- Reading a stream begins with the first request, and goes on properly. -/
theorem exists_each_readAll (h : Host ω σ) (limits : Limits) (url : String) (s : σ) (w : ω) :
    ∃ later, (h.readAll limits url s w).attempt.record =
        .reservation 0 (h.firstReservation limits s) :: later ∧
      Entry.Each (Entry.MakesRoom limits.maxSize.toNat) 0 later ∧
      (h.On64Bits → Entry.Each Entry.AddsUp 0 later) := by
  have room := h.makesRoom_drain limits.maxSize.toNat url 0 s w
  have sums (machine : h.On64Bits) :=
    addsUp_drain machine limits.maxSize.toNat url 0 s w (by decide)
  rw [readAll]
  split
  · dsimp only
    split
    · refine ⟨_, rfl, .append room (.cons trivial .nil), fun machine => ?_⟩
      exact .append (sums machine) (.cons trivial .nil)
    · exact ⟨_, rfl, room, sums⟩
  · exact ⟨[], rfl, .nil, fun _ => .nil⟩

theorem sizes_readAll (h : Host ω σ) (limits : Limits) (url : String) (s : σ) (w : ω) :
    (∀ data, (h.readAll limits url s w).attempt.result = .ok data →
        0 < data.length ∧ data.length ≤ limits.maxSize.toNat) ∧
      ∀ u n, (h.readAll limits url s w).attempt.result = .error (.incomplete u n) →
        n ≤ limits.maxSize.toNat := by
  by_cases granted : h.grants 0 (h.firstReservation limits s) = true
  · rw [result_readAll granted]
    simpa using h.sizes_drain limits.maxSize.toNat url 0 s w (Nat.zero_le _)
  · rw [readAll, if_neg granted]
    refine ⟨?_, ?_⟩
    · intro data hdata
      cases hdata
    · intro u n hincomplete
      cases hincomplete

section

variable {options : Options} {url : String} {supplied : Option σ}

/-- Neither a request nor a read comes before a load has its stream. -/
theorem not_mem_lead (h : Host ω σ) (options : Options) (url : String) (w : ω)
    (supplied : Option σ) {e : Entry} (he : e ∈ h.lead options url w supplied) :
    (∀ held requested, e ≠ .reservation held requested) ∧ ∀ brought, e ≠ .read brought := by
  cases supplied with
  | some s => cases he
  | none =>
    rcases List.mem_cons.1 he with rfl | he
    · exact ⟨nofun, nofun⟩
    rcases List.mem_append.1 he with he | he
    · have incidental := h.incidental url options w e he
      refine ⟨?_, ?_⟩
      · rintro held requested rfl
        cases incidental
      · rintro brought rfl
        cases incidental
    · rcases List.mem_singleton.1 he with rfl
      exact ⟨nofun, nofun⟩

/-- What comes after a load is done with its stream is neither. -/
theorem each_trail {P : Nat → Entry → Prop} (closes : ∀ total url, P total (.closing url))
    (notes : ∀ total n, P total (.note n)) (total : Nat) (url : String) (supplied : Option σ) :
    Entry.Each P total (trail url supplied) := by
  cases supplied with
  | some s => exact .nil
  | none => exact .cons (closes _ url) (.cons (notes _ _) .nil)

/-- The record of a load that has its stream: what comes before, the first request for memory,
and behind it entries of which each asks for what is needed, in sums of 64 bits. -/
theorem Serves.exists_record_load {s : σ} {w w₁ : ω}
    (served : h.Serves options url supplied w s w₁) (limits : Limits) :
    ∃ later, (h.load limits options url supplied w).attempt.record =
        h.lead options url w supplied ++ .reservation 0 (h.firstReservation limits s) :: later ∧
      Entry.Each (Entry.MakesRoom limits.maxSize.toNat) 0 later ∧
      (h.On64Bits → Entry.Each Entry.AddsUp 0 later) := by
  obtain ⟨later, hrecord, room, sums⟩ := h.exists_each_readAll limits url s w₁
  refine ⟨later ++ trail url supplied, ?_, ?_, fun machine => ?_⟩
  · have parts := congrArg Attempt.record (served.attempt_load limits)
    simp only [hrecord, List.append_assoc, List.cons_append] at parts
    exact parts
  · exact .append room (each_trail (fun _ _ => trivial) (fun _ _ => trivial) _ url supplied)
  · exact .append (sums machine)
      (each_trail (fun _ _ => trivial) (fun _ _ => trivial) _ url supplied)

/-- All requests of a load stay within a bound as long as the first does, and those for what was
read are within the limit anyway. -/
theorem Serves.requests_le_iff {s : σ} {w w₁ : ω} (served : h.Serves options url supplied w s w₁)
    (limits : Limits) :
    (∀ held requested,
        .reservation held requested ∈ (h.load limits options url supplied w).attempt.record →
        held + requested ≤ successor limits.maxSize.toNat) ↔
      h.firstReservation limits s ≤ successor limits.maxSize.toNat := by
  obtain ⟨later, whole, room, -⟩ := served.exists_record_load limits
  rw [whole]
  constructor
  · intro all
    have first := all 0 _ (List.mem_append_right _ List.mem_cons_self)
    rwa [Nat.zero_add] at first
  · intro first held requested he
    rcases List.mem_append.1 he with he | he
    · exact absurd rfl ((h.not_mem_lead options url w supplied he).1 held requested)
    rcases List.mem_cons.1 he with he | he
    · cases he
      rw [Nat.zero_add]
      exact first
    · obtain ⟨before, after, split⟩ := List.append_of_mem he
      obtain ⟨sum, fits⟩ := room before _ after split
      rw [Nat.zero_add] at sum fits
      exact Nat.le_trans (sum ▸ fits) (le_successor (toNat_le_maxCount limits.maxSize))

end

/-- Whatever the limits are, a load that has its stream asks for memory first for one byte more
than it expects, before it reads, and from then on after each chunk for the bytes brought so far,
as long as the limit admits them.  The number it expects takes 64 bits, and so do the sums that it
compares with the limit, on a machine of 64 bits.  All that it asks for stays within one byte more
than the limit exactly if the stream tells its size, whatever that is, or the number that is
expected otherwise stays within it.  A document has at least one byte and at most as many as the
limit says, and no more than these are told to have been read of one that is left incomplete. -/
theorem requests_of_load {h : Host ω σ} {options : Options} {url : String}
    {supplied : Option σ} {s : σ} {w w₁ : ω} (served : h.Serves options url supplied w s w₁)
    (limits : Limits) :
    let x := (h.load limits options url supplied w).attempt
    let limit := limits.maxSize.toNat
    (∃ front later,
      x.record = front ++ .reservation 0 (successor (h.hint limits s)) :: later ∧
      (∀ held requested, .reservation held requested ∉ front) ∧ (∀ r, .read r ∉ front) ∧
      (∀ before held requested after,
        later = before ++ .reservation held requested :: after →
        held + requested = (Entry.received before).length ∧ held + requested ≤ limit) ∧
      (h.On64Bits → ∀ before r after, later = before ++ .read r :: after →
        (Entry.received before).length + r.chunk.length < UInt64.size)) ∧
    h.hint limits s < UInt64.size ∧
    ((∀ held requested, .reservation held requested ∈ x.record →
        held + requested ≤ successor limit) ↔
      h.TellsSize s ∨ successor limits.sizeHint.toNat ≤ successor limit) ∧
    (∀ data, x.result = .ok data → 1 ≤ data.length ∧ data.length ≤ limit) ∧
    ∀ u n, x.result = .error (.incomplete u n) → n ≤ limit := by
  intro x limit
  obtain ⟨later, whole, room, sums⟩ := served.exists_record_load limits
  have outside {e : Entry} (he : e ∈ h.lead options url w supplied) :=
    h.not_mem_lead options url w supplied he
  refine ⟨⟨_, later, whole, ?_, ?_, ?_, ?_⟩, ?_, ?_, ?_, ?_⟩
  · intro held requested he
    exact (outside he).1 held requested rfl
  · intro r he
    exact (outside he).2 r rfl
  · intro before held requested after split
    obtain ⟨sum, fits⟩ := room before _ after split
    rw [Nat.zero_add] at sum fits
    exact ⟨sum, sum ▸ fits⟩
  · intro machine before r after split
    have sum := sums machine before _ after split
    rwa [Nat.zero_add] at sum
  · exact Nat.lt_of_le_of_lt (h.hint_le_maxCount limits s) (by decide)
  · exact (served.requests_le_iff limits).trans (h.first_request_le_iff limits s)
  · rw [served.result_load]
    exact (h.sizes_readAll limits url s w₁).1
  · rw [served.result_load]
    exact (h.sizes_readAll limits url s w₁).2

end Host

/-! ## Rehearsed loads -/

theorem Script.length_play_le (s : Script) (n : Nat) (flag : Bool) (steps : List Script.Step) :
    (s.play n flag steps).1.chunk.length ≤ n := by
  induction steps generalizing flag with
  | nil => exact Nat.zero_le n
  | cons step steps ih =>
    match step with
    | .data [] => exact ih flag
    | .data (b :: bs) => exact List.length_take_le n (b :: bs)
    | .again => exact Nat.zero_le n
    | .fail cause => exact Nat.zero_le n
    | .stall => exact Nat.zero_le n
    | .flag value => exact ih value

theorem Script.length_read_le (s : Script) (n : Nat) (flag : Bool) :
    (s.read n flag).1.chunk.length ≤ n := by
  unfold read
  split
  · exact List.length_take_le n _
  · exact s.length_play_le n flag s.steps

theorem Stream.length_read_le (s : Stream) (n : Nat) (w : Signals) :
    (s.read n w).1.chunk.length ≤ n := by
  cases s with
  | memory m => exact (m.length_read n).symm ▸ Nat.min_le_left n m.remaining
  | scripted s => exact s.length_read_le n w.flag

/-- Rehearsals take place on a machine of 64 bits. -/
theorem Rehearsal.on64Bits (r : Rehearsal) : r.host.On64Bits where
  buffers held n granted := by
    have small : held + n < memory := of_decide_eq_true granted
    exact Nat.lt_trans small (by decide)
  chunks s w := s.length_read_le chunkSize w

namespace Host

/-- A stream of four bytes says that it has seventy.  With a limit of four bytes the load asks for
five at most, however many would be expected without that. -/
theorem requests_of_overstated_stream :
    let h := (⟨[], .never⟩ : Rehearsal).host
    let s := Stream.scripted (.start [.data [1, 2, 3], .again, .data [4]] .played (some 70))
    let x := (h.load ⟨0x800000000000, 4⟩ .empty "mem://a" (some s) ⟨false, 0⟩).attempt
    h.Serves .empty "mem://a" (some s) ⟨false, 0⟩ s ⟨false, 0⟩ ∧ h.On64Bits ∧
      (∀ held requested, .reservation held requested ∈ x.record → held + requested ≤ 5) ∧
      ∀ data, x.result = .ok data → 1 ≤ data.length ∧ data.length ≤ 4 := by
  intro h s x
  have served : h.Serves .empty "mem://a" (some s) ⟨false, 0⟩ s ⟨false, 0⟩ := .supplied s _
  obtain ⟨-, -, within, document, -⟩ :=
    requests_of_load served ⟨0x800000000000, 4⟩
  exact ⟨served, Rehearsal.on64Bits _, within.2 (.inl ⟨69, rfl⟩), document⟩

/-- A stream of one byte does not say so.  With a limit of ten bytes the load asks for as many as
are expected without that, and fails for them. -/
theorem request_beyond_limit :
    let h := (⟨[], .never⟩ : Rehearsal).host
    let s := Stream.memory (.unsized [0x78])
    let x := (h.load ⟨0x800000000000, 10⟩ .empty "mem://a" (some s) ⟨false, 0⟩).attempt
    x.result = .error (.outOfMemory "mem://a" (0x800000000000 + 1)) ∧
      ¬∀ held requested, .reservation held requested ∈ x.record →
        held + requested ≤ successor 10 := by
  refine ⟨rfl, fun within => ?_⟩
  have first := within 0 (0x800000000000 + 1) List.mem_cons_self
  exact absurd first (by decide)

end Host

end MasterPackage.Transport
