import MasterPackage.Proofs.Transport.Turns
import MasterPackage.Transport.Disk

/-!
# Loading files

The files of a machine stay as they are while they are read, and a caller who never stops a
load counts no questions.  So a load of a file leaves the world alone, and it does not matter
what was loaded before.
-/

namespace MasterPackage.Transport

namespace Host

variable {ω σ : Type} {h : Host ω σ}

/-- Neither opening streams nor reading them nor asking the caller changes the world. -/
structure Still (h : Host ω σ) : Prop where
  openStream : ∀ url options w, (h.openStream url options w).world = w
  read : ∀ n s w, (h.read n s w).2.2 = w
  poll : ∀ w, (h.poll w).2 = w

theorem Still.next (still : h.Still) (s : σ) (w : ω) : (h.next s w).2 = w := by
  rw [Host.next, still.read, still.poll]

theorem Still.world_drain (still : h.Still) (maxSize : Nat) (url : String) (held : Nat) (s : σ)
    (w : ω) : (h.drain maxSize url held s w).world = w := by
  induction held, s, w using h.drain_induction maxSize url with
  | step held s w ih =>
    cases asked : (h.poll w).1 with
    | true => rw [drain_of_stop asked, still.poll]
    | false =>
      cases hturn : h.turn maxSize url held (h.round 0 s w).reading (h.round 0 s w).atEnd with
      | last more result => rw [drain_of_last asked hturn, still.next]
      | onward more chunk =>
        have later := ih more chunk asked hturn
        rw [still.next] at later
        rw [drain_of_onward asked hturn, still.next]
        exact later

theorem Still.world_readAll (still : h.Still) (limits : Limits) (url : String) (s : σ) (w : ω) :
    (h.readAll limits url s w).world = w := by
  have drained := still.world_drain limits.maxSize.toNat url 0 s w
  rw [readAll]
  split
  · simp only
    split
    · exact drained
    · exact drained
  · rfl

/-- A load leaves the world alone. -/
theorem Still.world_load (still : h.Still) (limits : Limits) (options : Options) (url : String)
    (supplied : Option σ) (w : ω) : (h.load limits options url supplied w).world = w := by
  cases supplied with
  | some s => exact still.world_readAll limits url s w
  | none =>
    have opening := still.openStream url options w
    rw [load_opened, Action.enter_bind]
    cases opened : (h.openStream url options w).attempt.result with
    | error e =>
      rw [Action.bind_error opened]
      exact opening
    | ok s =>
      rw [Action.bind_ok opened, opening]
      exact still.world_readAll limits url s w

end Host

namespace Disk

theorem world_openFile (d : Disk) (url : String) (options : Options) (w : Signals) :
    (d.openFile .never url options w).world = w := by
  simp only [openFile, StopRule.poll, Bool.false_eq_true, ↓reduceIte]
  split
  · rfl
  · rfl

/-- With nobody to stop a load, the files of a machine leave the world alone. -/
theorem still_host (d : Disk) : (d.host .never).Still where
  openStream := d.world_openFile
  read _ _ _ := rfl
  poll _ := rfl

/-! ## Whole files -/

theorem round_file (d : Disk) (bytes : List UInt8) (position : Nat) (w : Signals) :
    let chunk := (bytes.drop position).take chunkSize
    (d.host .never).round 0 ⟨some bytes, position, false⟩ w =
        ⟨false, .bytes chunk, chunk.isEmpty⟩ ∧
      (d.host .never).next ⟨some bytes, position, false⟩ w =
        (⟨some bytes, position + chunk.length, chunk.isEmpty⟩, w) := by
  have hsize : (chunkSize != 0) = true := rfl
  simp only [Host.round, Host.next, host, StopRule.poll, OpenFile.read, hsize, Bool.and_true,
    Bool.false_or, and_self]

/-- A file delivers what stands behind the position that it is read from. -/
theorem delivers_file (d : Disk) (bytes : List UInt8) (position : Nat) (w : Signals) :
    (d.host .never).Delivers ⟨some bytes, position, false⟩ w (bytes.drop position) := by
  obtain ⟨hround, hnext⟩ := d.round_file bytes position w
  have hsplit := List.prefix_iff_eq_append.1 (List.take_prefix chunkSize (bytes.drop position))
  rw [List.drop_drop] at hsplit
  cases hchunk : (bytes.drop position).take chunkSize with
  | nil =>
    have hend : bytes.drop position = [] := by
      rcases List.take_eq_nil_iff.1 hchunk with hsize | hend
      · cases hsize
      · exact hend
    rw [hchunk] at hround
    exact ⟨0, nofun, hround, hend.symm⟩
  | cons b rest =>
    rw [hchunk] at hround hnext hsplit
    have hmore : position < bytes.length := by
      have hlength := congrArg List.length hsplit
      rw [List.length_append, List.length_cons, List.length_drop, List.length_drop] at hlength
      omega
    -- Each chunk brings the position closer to the end of the file.
    have later := d.delivers_file bytes (position + (b :: rest).length) w
    have hquiet : ((d.host .never).round 0 ⟨some bytes, position, false⟩ w).isQuiet = true := by
      rw [hround]
      rfl
    have hdelivers := Host.Delivers.cons hquiet (by rw [hnext]; exact later)
    rw [hround] at hdelivers
    exact hsplit ▸ hdelivers
termination_by bytes.length - position
decreasing_by
  rw [List.length_cons]
  omega

/-- A file that is not empty and not too long is loaded as it is. -/
theorem load_file {d : Disk} {limits : Limits} {url path : String} {bytes : List UInt8}
    (onMachine : Location.machinePath url = .ok path) (there : d path = .file bytes)
    (nonempty : bytes ≠ []) (fits : bytes.length ≤ limits.maxSize.toNat)
    (memory : limits.maxSize.toNat + 1 < 0x800000000000) (options : Options) (w : Signals) :
    ((d.host .never).load limits options url none w).attempt.result = .ok bytes := by
  have opened : ((d.host .never).openStream url options w).attempt.result =
      .ok ⟨some bytes, 0, false⟩ := by
    simp only [host, openFile, StopRule.poll, onMachine, there, Bool.false_eq_true, ↓reduceIte]
  have served := Host.Serves.opened opened
  have granted :
      ¬(d.host .never).Refuses ((d.host .never).load limits options url none w).attempt.record := by
    rw [served.not_refuses_load_iff]
    constructor
    · have hexpected :
          (d.host .never).hint limits ⟨some bytes, 0, false⟩ ≤ limits.maxSize.toNat := by
        cases bytes with
        | nil => exact absurd rfl nonempty
        | cons b rest => exact Nat.min_le_right _ _
      have hfirst :=
        Nat.min_le_left ((d.host .never).hint limits ⟨some bytes, 0, false⟩ + 1) maxCount
      refine decide_eq_true ?_
      rw [Host.firstReservation]
      omega
    · apply Host.not_refuses_drain
      intro held n hfits
      exact decide_eq_true (by omega)
  rw [served.load_eq_ok_iff granted]
  exact ⟨d.delivers_file bytes 0 _, nonempty, fits⟩

end Disk

end MasterPackage.Transport
