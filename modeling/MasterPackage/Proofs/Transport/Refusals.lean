import MasterPackage.Transport.Load

/-!
# Refused memory

The journal of a load tells of every request for memory, so whether one was refused can be seen
from it.  Opening a stream makes no requests.  Reading one makes a first request and then those of
the rest of it, and none of these is refused by a host that has the memory for a whole document.
-/

namespace MasterPackage.Transport.Host

variable {ω σ : Type} {h : Host ω σ}

/-- Memory was asked for that the host does not grant. -/
def Refuses (h : Host ω σ) (journal : List Entry) : Prop :=
  ∃ held requested, .reservation held requested ∈ journal ∧ h.grants held requested = false

theorem not_refuses_nil : ¬h.Refuses [] := by
  intro refuses
  obtain ⟨held, requested, hmem, -⟩ := refuses
  cases hmem

theorem refuses_append_iff {a b : List Entry} :
    h.Refuses (a ++ b) ↔ h.Refuses a ∨ h.Refuses b := by
  simp only [Refuses, List.mem_append, or_and_right, exists_or]

theorem refuses_reservation_iff {held requested : Nat} {journal : List Entry} :
    h.Refuses (.reservation held requested :: journal) ↔
      h.grants held requested = false ∨ h.Refuses journal := by
  constructor
  · intro refuses
    obtain ⟨held', requested', hmem, refused⟩ := refuses
    rcases List.mem_cons.1 hmem with same | hmem
    · cases same
      exact .inl refused
    · exact .inr ⟨held', requested', hmem, refused⟩
  · intro either
    rcases either with refused | ⟨held', requested', hmem, refused⟩
    · exact ⟨held, requested, List.mem_cons_self .., refused⟩
    · exact ⟨held', requested', List.mem_cons_of_mem _ hmem, refused⟩

theorem refuses_cons_iff {e : Entry} {journal : List Entry}
    (other : ∀ held requested, e ≠ .reservation held requested) :
    h.Refuses (e :: journal) ↔ h.Refuses journal := by
  constructor
  · intro refuses
    obtain ⟨held, requested, hmem, refused⟩ := refuses
    rcases List.mem_cons.1 hmem with same | hmem
    · exact absurd same.symm (other held requested)
    · exact ⟨held, requested, hmem, refused⟩
  · intro refuses
    obtain ⟨held, requested, hmem, refused⟩ := refuses
    exact ⟨held, requested, List.mem_cons_of_mem e hmem, refused⟩

theorem refuses_turn_iff {journal : List Entry} {stop : Bool} {r : Reading} :
    h.Refuses (.poll stop :: .read r :: journal) ↔ h.Refuses journal := by
  rw [refuses_cons_iff (e := .poll stop) nofun, refuses_cons_iff (e := .read r) nofun]

/-! ## Streams -/

/-- Opening a stream asks for no memory. -/
theorem not_refuses_openStream (h : Host ω σ) (url : String) (options : Options) (w : ω) :
    ¬h.Refuses (h.openStream url options w).attempt.record := by
  intro refuses
  obtain ⟨held, requested, hmem, -⟩ := refuses
  have incidental := h.incidental url options w _ hmem
  cases incidental

/-- With memory for as much as the limit admits, the rest of a stream is read without a refusal. -/
theorem not_refuses_drain {maxSize : Nat}
    (ample : ∀ held n, held + n ≤ maxSize → h.grants held n = true) (url : String) (held : Nat)
    (s : σ) (w : ω) : ¬h.Refuses (h.drain maxSize url held s w).attempt.record := by
  have unasked (stop : Bool) (r : Reading) : ¬h.Refuses [.poll stop, .read r] :=
    mt refuses_turn_iff.1 not_refuses_nil
  fun_induction drain h maxSize url held s w with
  | case1 held s w w₁ asked =>
    exact mt (refuses_cons_iff (e := .poll true) nofun).1 not_refuses_nil
  | case2 held s w w₁ asked cause s₂ w₂ read => exact unasked false _
  | case3 held s w w₁ asked s₂ w₂ read ih => exact mt refuses_turn_iff.1 ih
  | case4 held s w w₁ asked s₂ w₂ read => exact unasked false _
  | case5 held s w w₁ asked b bs s₂ w₂ read chunk long => exact unasked false _
  | case6 held s w w₁ asked b bs s₂ w₂ read chunk short granted ih =>
    intro refuses
    rcases refuses_reservation_iff.1 (refuses_turn_iff.1 refuses) with refused | later
    · rw [granted] at refused
      cases refused
    · exact ih later
  | case7 held s w w₁ asked b bs s₂ w₂ read chunk short refused =>
    exact absurd (ample held chunk.length (Nat.le_of_not_lt short)) refused

/-- Reading a stream asks for memory first, and then for what the rest of it takes. -/
theorem refuses_readAll_iff (h : Host ω σ) (limits : Limits) (url : String) (s : σ) (w : ω) :
    h.Refuses (h.readAll limits url s w).attempt.record ↔
      h.grants 0 (h.firstReservation limits s) = false ∨
        h.grants 0 (h.firstReservation limits s) = true ∧
          h.Refuses (h.drain limits.maxSize.toNat url 0 s w).attempt.record := by
  have noted (n : Note) : ¬h.Refuses [.note n] :=
    mt (refuses_cons_iff (e := .note n) nofun).1 not_refuses_nil
  rw [readAll]
  split
  · next granted =>
    dsimp only [Drained.after]
    split
    · rw [refuses_append_iff, List.singleton_append, refuses_reservation_iff, granted]
      simp [noted]
    · rw [List.singleton_append, refuses_reservation_iff, granted]
      simp
  · next refused =>
    have refused : h.grants 0 (h.firstReservation limits s) = false := Bool.eq_false_iff.2 refused
    simp [refuses_reservation_iff, refused]

end MasterPackage.Transport.Host
