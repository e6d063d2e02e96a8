import Mathlib.Algebra.GroupWithZero.Nat
import Mathlib.Data.List.Forall2
import MasterPackage.Proofs.Transport.Causes
import MasterPackage.Proofs.Transport.Reservations

/-!
# Reading and loading bytes in memory

A stream over bytes in memory brings them in order and each of them once, however many are asked
for at a time: what was returned and what is left are together the data.  A load of such a stream
takes it in whole chunks up to the last, so it comes to the data, or finds that there are none, or
stops in front of the chunk with which the limit is exceeded.  Whether the stream tells its size
makes no difference to that.  It makes one to the memory that the load asks for first, without
which there is no document.
-/

namespace MasterPackage.Transport

namespace Memory

variable {m : Memory} {data returned : List UInt8} {sized : Bool}

/-! ## Reads -/

/-- Reads of so many bytes each: what they bring, and the stream after them. -/
def readEach (m : Memory) : List Nat → List (List UInt8) × Memory
  | [] => ([], m)
  | n :: sizes =>
    let (chunk, m₁) := m.read n
    let (chunks, m₂) := m₁.readEach sizes
    (chunk :: chunks, m₂)

/-- A stream over the data that has returned these bytes of them. -/
structure Returned (m : Memory) (data : List UInt8) (sized : Bool) (returned : List UInt8) :
    Prop where
  data_eq : m.data = data
  sized_eq : m.sized = sized
  position_eq : m.position = returned.length
  append_rest : returned ++ m.rest = data

theorem returned_nil (data : List UInt8) (sized : Bool) : Returned ⟨data, 0, sized⟩ data sized [] :=
  ⟨rfl, rfl, rfl, rfl⟩

theorem Returned.read (h : m.Returned data sized returned) (n : Nat) :
    (m.read n).2.Returned data sized (returned ++ (m.read n).1) where
  data_eq := h.data_eq
  sized_eq := h.sized_eq
  position_eq := by
    have position : (m.read n).2.position = m.position + (m.read n).1.length := rfl
    rw [position, h.position_eq, List.length_append]
  append_rest := by rw [List.append_assoc, read_append, h.append_rest]

theorem Returned.readEach (h : m.Returned data sized returned) (sizes : List Nat) :
    (m.readEach sizes).2.Returned data sized (returned ++ (m.readEach sizes).1.flatten) := by
  induction sizes generalizing m returned with
  | nil => simpa [Memory.readEach] using h
  | cons n sizes ih =>
    have later := ih (h.read n)
    rw [List.append_assoc] at later
    exact later

theorem Returned.length_add_remaining (h : m.Returned data sized returned) :
    returned.length + m.remaining = data.length := by
  rw [← length_rest, ← List.length_append, h.append_rest]

theorem Returned.position_le (h : m.Returned data sized returned) : m.position ≤ data.length := by
  have lengths := h.length_add_remaining
  rw [h.position_eq]
  omega

theorem Returned.atEnd_iff (h : m.Returned data sized returned) :
    m.atEnd = true ↔ returned = data := by
  have start : returned <+: data := ⟨m.rest, h.append_rest⟩
  rw [atEnd, decide_eq_true_iff, h.data_eq, h.position_eq]
  constructor
  · intro all
    exact start.eq_of_length (Nat.le_antisymm start.length_le all)
  · intro same
    exact Nat.le_of_eq (congrArg List.length same.symm)

theorem Returned.size?_eq (h : m.Returned data sized returned) :
    m.size? = if sized then some data.length else none := by
  rw [size?, h.sized_eq, h.data_eq]

/-- Reads bring what one read of as many bytes as all of them together would. -/
theorem flatten_readEach (m : Memory) (sizes : List Nat) :
    (m.readEach sizes).1.flatten = m.rest.take sizes.sum := by
  induction sizes generalizing m with
  | nil => rfl
  | cons n sizes ih =>
    have first : (m.readEach (n :: sizes)).1 =
        (m.read n).1 :: ((m.read n).2.readEach sizes).1 := rfl
    have chunk : (m.read n).1 = m.rest.take n := rfl
    rw [first, List.flatten_cons, ih, rest_read, chunk, List.sum_cons, List.take_add]

/-- Every read brings as many bytes as it asks for at most. -/
theorem length_readEach_le (m : Memory) (sizes : List Nat) :
    List.Forall₂ (fun chunk n => chunk.length ≤ n) (m.readEach sizes).1 sizes := by
  induction sizes generalizing m with
  | nil => exact .nil
  | cons n sizes ih => exact .cons (List.length_take_le n m.rest) (ih (m.read n).2)

/-- A read brings a whole chunk or everything that is left. -/
theorem Returned.chunk_cases (h : m.Returned data sized returned) (n : Nat) :
    (m.read n).1.length = n ∨ returned ++ (m.read n).1 = data := by
  by_cases whole : n ≤ m.remaining
  · exact .inl ((length_read n m).trans (Nat.min_eq_left whole))
  · have all : (m.read n).1 = m.rest := List.take_of_length_le (by rw [length_rest]; omega)
    exact .inr (by rw [all, h.append_rest])

/-! ## Chunks -/

/-- What a load of the data comes to if it has the memory. -/
def documentOf (url : String) (limit : Nat) (data : List UInt8) :
    Except LoadError (List UInt8) :=
  if data = [] then .error (.empty url)
  else if data.length ≤ limit then .ok data
  else .error (.incomplete url (limit / chunkSize * chunkSize))

/-- A stream over the data that has returned whole chunks of them, or all of them, and no more than
the limit admits. -/
structure InChunks (m : Memory) (limit : Nat) (data : List UInt8) (sized : Bool)
    (returned : List UInt8) : Prop where
  back : m.Returned data sized returned
  fits : returned.length ≤ limit
  whole : chunkSize ∣ returned.length ∨ returned = data

variable {limit : Nat}

theorem inChunks_nil (limit : Nat) (data : List UInt8) (sized : Bool) :
    InChunks ⟨data, 0, sized⟩ limit data sized [] :=
  ⟨returned_nil data sized, Nat.zero_le limit, .inl (Nat.dvd_zero chunkSize)⟩

/-- A read that brings nothing finds the end. -/
theorem InChunks.ended (h : m.InChunks limit data sized returned)
    (nothing : (m.read chunkSize).1 = []) :
    returned = data ∧ (m.read chunkSize).2.atEnd = true := by
  have left : m.rest = [] := (List.take_eq_nil_iff.1 nothing).resolve_left (by decide)
  have all : returned = data := by rw [← h.back.append_rest, left, List.append_nil]
  refine ⟨all, (h.back.read chunkSize).atEnd_iff.2 ?_⟩
  rw [nothing, List.append_nil, all]

/-- With everything returned, the end decides. -/
theorem documentOf_of_fits (fits : data.length ≤ limit) (url : String) :
    documentOf url limit data = (Host.stopped url data.length true).map (data ++ ·) := by
  rw [documentOf, if_pos fits]
  by_cases empty : data = []
  · rw [if_pos empty, empty]
    rfl
  · have held : data.length ≠ 0 := mt List.length_eq_zero_iff.1 empty
    rw [if_neg empty, Host.stopped, if_neg (by decide), if_neg held]
    exact congrArg Except.ok (List.append_nil data).symm

/-- Before something more there are whole chunks only. -/
theorem InChunks.dvd (h : m.InChunks limit data sized returned)
    (some : 0 < (m.read chunkSize).1.length) : chunkSize ∣ returned.length := by
  apply h.whole.resolve_right
  intro all
  have lengths := (h.back.read chunkSize).length_add_remaining
  rw [List.length_append, all] at lengths
  omega

/-- The limit lies in the chunk with which it is exceeded. -/
theorem chunks_of_exceeded {held size : Nat} (chunks : chunkSize ∣ held) (fits : held ≤ limit)
    (long : limit < held + size) (small : size ≤ chunkSize) :
    limit / chunkSize * chunkSize = held := by
  obtain ⟨k, hk⟩ := chunks
  rw [chunkSize] at hk small ⊢
  omega

theorem InChunks.documentOf_of_exceeded (h : m.InChunks limit data sized returned)
    (some : 0 < (m.read chunkSize).1.length)
    (long : limit < returned.length + (m.read chunkSize).1.length) (url : String) :
    documentOf url limit data = .error (.incomplete url returned.length) := by
  have small : (m.read chunkSize).1.length ≤ chunkSize := List.length_take_le chunkSize m.rest
  have lengths := (h.back.read chunkSize).length_add_remaining
  rw [List.length_append] at lengths
  have nonempty : data ≠ [] := by
    intro none
    rw [none, List.length_nil] at lengths
    omega
  rw [documentOf, if_neg nonempty, if_neg (by omega),
    chunks_of_exceeded (h.dvd some) h.fits long small]

theorem InChunks.read (h : m.InChunks limit data sized returned)
    (some : 0 < (m.read chunkSize).1.length)
    (short : returned.length + (m.read chunkSize).1.length ≤ limit) :
    (m.read chunkSize).2.InChunks limit data sized (returned ++ (m.read chunkSize).1) where
  back := h.back.read chunkSize
  fits := List.length_append ▸ short
  whole := by
    refine (h.back.chunk_cases chunkSize).imp_left fun full => ?_
    rw [List.length_append, full]
    exact Nat.dvd_add (h.dvd some) (Nat.dvd_refl chunkSize)

end Memory

/-! ## Loads -/

namespace Host

variable {ω σ : Type} {h : Host ω σ} {stream : Memory → σ}

/-- With these of its streams a host does what bytes in memory do, and nobody wants to stop. -/
structure ReadsMemory (h : Host ω σ) (stream : Memory → σ) : Prop where
  poll : ∀ w, (h.poll w).1 = false
  read : ∀ n m w, ∃ w₁, h.read n (stream m) w = (.bytes (m.read n).1, stream (m.read n).2, w₁)
  size? : ∀ m, h.size? (stream m) = m.size?
  atEnd : ∀ m, h.atEnd (stream m) = m.atEnd

theorem ReadsMemory.round (reads : h.ReadsMemory stream) (m : Memory) (w : ω) :
    h.round 0 (stream m) w =
        ⟨false, .bytes (m.read chunkSize).1, (m.read chunkSize).2.atEnd⟩ ∧
      (h.next (stream m) w).1 = stream (m.read chunkSize).2 := by
  obtain ⟨w₁, read⟩ := reads.read chunkSize m (h.poll w).2
  simp only [Host.round, Host.next, read, reads.poll, reads.atEnd, and_self]

/-- One turn: it is the last one, and comes to what the data are unless it was refused memory, or a
chunk more was returned. -/
theorem ReadsMemory.turn_cases (reads : h.ReadsMemory stream) {m : Memory} {limit : Nat}
    {data returned : List UInt8} {sized : Bool}
    (inChunks : m.InChunks limit data sized returned) (url : String) (w : ω) :
    let r := h.round 0 (stream m) w
    (∃ more result, h.turn limit url returned.length r.reading r.atEnd = .last more result ∧
      (h.Refuses more ∨ result.map (returned ++ ·) = Memory.documentOf url limit data)) ∨
    ∃ more chunk, h.turn limit url returned.length r.reading r.atEnd = .onward more chunk ∧
      0 < chunk.length ∧
      (m.read chunkSize).2.InChunks limit data sized (returned ++ chunk) := by
  have exceeded := fun some long => inChunks.documentOf_of_exceeded some long url
  have later := inChunks.read
  simp only [(reads.round m w).1]
  cases hchunk : (m.read chunkSize).1 with
  | nil =>
    obtain ⟨rfl, ended⟩ := inChunks.ended hchunk
    have document := Memory.documentOf_of_fits inChunks.fits url
    rw [ended]
    exact .inl ⟨[], stopped url returned.length true, rfl, .inr document.symm⟩
  | cons b bs =>
    rw [hchunk] at exceeded later
    have some : 0 < (b :: bs).length := Nat.succ_pos bs.length
    by_cases long : limit < returned.length + (b :: bs).length
    · exact .inl ⟨[], .error (.incomplete url returned.length), if_pos long,
        .inr (exceeded some long).symm⟩
    · cases room : h.grants returned.length (b :: bs).length with
      | false =>
        have refused : h.Refuses [.reservation returned.length (b :: bs).length] :=
          refuses_reservation_iff.2 (.inl room)
        exact .inl ⟨_, _, (if_neg long).trans (if_neg (Bool.eq_false_iff.1 room)), .inl refused⟩
      | true =>
        exact .inr ⟨_, b :: bs, (if_neg long).trans (if_pos room), some,
          later some (Nat.le_of_not_lt long)⟩

/-- The rest of a stream. -/
theorem ReadsMemory.result_drain (reads : h.ReadsMemory stream) {m : Memory} {limit : Nat}
    {url : String} {data returned : List UInt8} {sized : Bool} {w : ω}
    (inChunks : m.InChunks limit data sized returned)
    (granted : ¬h.Refuses (h.drain limit url returned.length (stream m) w).attempt.record) :
    (h.drain limit url returned.length (stream m) w).attempt.result.map (returned ++ ·) =
      Memory.documentOf url limit data := by
  have go := reads.poll w
  rcases reads.turn_cases inChunks url w with
    ⟨more, result, hturn, ending⟩ | ⟨more, chunk, hturn, some, later⟩
  · rw [drain_of_last go hturn] at granted ⊢
    rw [refuses_turn_iff] at granted
    exact ending.resolve_left granted
  · -- Each chunk leaves less of the data.
    have less : (m.read chunkSize).2.remaining < m.remaining := by
      have before := inChunks.back.length_add_remaining
      have behind := later.back.length_add_remaining
      rw [List.length_append] at behind
      omega
    rw [drain_of_onward go hturn, (reads.round m w).2, ← List.length_append] at granted ⊢
    refine (Drained.map_result_behind returned chunk _).trans ?_
    apply reads.result_drain later
    intro refuses
    apply granted
    exact refuses_turn_iff.2 (refuses_append_iff.2 (.inr refuses))
termination_by m.remaining

/-- A load that is refused no memory comes to what the data are. -/
theorem ReadsMemory.result_load (reads : h.ReadsMemory stream) {limits : Limits}
    {options : Options} {url : String} {supplied : Option σ} {w w₁ : ω} {data : List UInt8}
    {sized : Bool} (served : h.Serves options url supplied w (stream ⟨data, 0, sized⟩) w₁)
    (granted : ¬h.Refuses (h.load limits options url supplied w).attempt.record) :
    (h.load limits options url supplied w).attempt.result =
      Memory.documentOf url limits.maxSize.toNat data := by
  obtain ⟨first, later⟩ := served.not_refuses_load_iff.1 granted
  have drained := reads.result_drain (Memory.inChunks_nil _ data sized) later
  rw [served.result_load, result_readAll first, ← drained]
  exact (congrFun Except.map_id _).symm

end Host

/-- Whatever the sizes of the buffers are into which bytes in memory are read, they are returned
from the first on and each of them once, until all have been; what remains is the rest, the
end is seen exactly when nothing does, and the size stays what it was.  So a load with nobody to
stop it comes to the data if there are any and not more than the limit admits, is told that there
are none, or is left incomplete, whether the stream tells its size or not.  Only if memory that it
asks for is refused does it come to that. -/
theorem Memory.loses_nothing {ω σ : Type} {h : Host ω σ} {stream : Memory → σ}
    (reads : h.ReadsMemory stream) (data : List UInt8) (sized : Bool) :
    (∀ sizes,
      let returned := (readEach ⟨data, 0, sized⟩ sizes).1
      let m := (readEach ⟨data, 0, sized⟩ sizes).2
      returned.flatten = data.take sizes.sum ∧
      returned.flatten.length = min data.length sizes.sum ∧
      List.Forall₂ (fun chunk n => chunk.length ≤ n) returned sizes ∧
      m.position ≤ data.length ∧
      m.remaining + returned.flatten.length = data.length ∧
      (m.atEnd = true ↔ returned.flatten = data) ∧
      m.size? = if sized then some data.length else none) ∧
    ∀ limits options url supplied w w₁,
      h.Serves options url supplied w (stream ⟨data, 0, sized⟩) w₁ →
      let x := (h.load limits options url supplied w).attempt
      (h.Refuses x.record → ToldOutOfMemory x.result) ∧
      (¬h.Refuses x.record → x.result = documentOf url limits.maxSize.toNat data) := by
  constructor
  · intro sizes returned m
    have back : m.Returned data sized returned.flatten := (returned_nil data sized).readEach sizes
    have start : returned.flatten = data.take sizes.sum := flatten_readEach ⟨data, 0, sized⟩ sizes
    refine ⟨start, ?_, length_readEach_le _ sizes, back.position_le, ?_, back.atEnd_iff,
      back.size?_eq⟩
    · rw [start, List.length_take, Nat.min_comm]
    · rw [Nat.add_comm]
      exact back.length_add_remaining
  · intro limits options url supplied w w₁ served x
    constructor
    · intro refuses
      exact Host.toldOutOfMemory_load_iff.2 (.inl refuses)
    · intro granted
      exact reads.result_load served granted

/-- Rehearsals read bytes in memory. -/
theorem Rehearsal.readsMemory (files : List (String × Source)) :
    (⟨files, .never⟩ : Rehearsal).host.ReadsMemory .memory where
  poll _ := rfl
  read _ _ w := ⟨w, rfl⟩
  size? _ := rfl
  atEnd _ := rfl

namespace Memory

/-- Three bytes are loaded whole within a limit of three, and not at all within one of two. -/
theorem load_of_three_bytes :
    let h := (⟨[], .never⟩ : Rehearsal).host
    let s := Stream.memory (.ofBytes [1, 2, 3])
    let load (limit : UInt64) := (h.load ⟨0, limit⟩ .empty "mem://a" (some s) ⟨false, 0⟩).attempt
    h.ReadsMemory .memory ∧
      (load 3).result = .ok [1, 2, 3] ∧ (load 2).result = .error (.incomplete "mem://a" 0) := by
  intro h s load
  have reads : h.ReadsMemory .memory := Rehearsal.readsMemory []
  have served : h.Serves .empty "mem://a" (some s) ⟨false, 0⟩ s ⟨false, 0⟩ := .supplied s _
  have loads := (loses_nothing reads [1, 2, 3] true).2
  have three := (loads ⟨0, 3⟩ _ _ _ _ _ served).2
    (Rehearsal.not_refuses_load _ served (by decide) (by decide))
  have two := (loads ⟨0, 2⟩ _ _ _ _ _ served).2
    (Rehearsal.not_refuses_load _ served (by decide) (by decide))
  exact ⟨reads, three, two⟩

/-- One byte that does not tell its size is not loaded, within the limit though it is, if there is
no memory for as many as are expected. -/
theorem load_of_unsized_byte :
    let h := (⟨[], .never⟩ : Rehearsal).host
    let limits : Limits := ⟨0x800000000000, 0x1000000000000⟩
    let load (m : Memory) :=
      (h.load limits .empty "mem://a" (some (.memory m)) ⟨false, 0⟩).attempt.result
    h.ReadsMemory .memory ∧ [0x78].length ≤ limits.maxSize.toNat ∧
      load (.unsized [0x78]) = .error (.outOfMemory "mem://a" (0x800000000000 + 1)) ∧
      load (.unsized [0x78]) ≠ .ok [0x78] := by
  intro h limits load
  have refused : load (.unsized [0x78]) =
      .error (.outOfMemory "mem://a" (0x800000000000 + 1)) := rfl
  refine ⟨Rehearsal.readsMemory [], by decide, refused, ?_⟩
  rw [refused]
  nofun

end Memory

end MasterPackage.Transport
