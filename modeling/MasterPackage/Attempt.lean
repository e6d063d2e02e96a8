/-!
# Attempts

An attempt is the outcome of a computation that may fail, together with what was
recorded up to its end.  A failure keeps the record: what happened before it
happened.

* `Attempt.bind_ok`, `Attempt.bind_error`: how the record of a sequence is put together.
* `Attempt.result_bind_eq_ok_iff`, `Attempt.result_bind_eq_error_iff`: when a sequence
  succeeds, and why it fails.
* `LawfulMonad (Attempt ν ε)`: sequencing is associative, so a record does not depend
  on how the steps were grouped.
-/

namespace MasterPackage

/-- An outcome with the record kept until it was reached, oldest entry first. -/
structure Attempt (ν ε α : Type) where
  record : List ν
  result : Except ε α

namespace Attempt

variable {ν μ ε ζ α β : Type}

/-- A value, with nothing recorded. -/
def ok (a : α) : Attempt ν ε α := ⟨[], .ok a⟩

/-- A failure, with nothing recorded. -/
def fail (e : ε) : Attempt ν ε α := ⟨[], .error e⟩

/-- One entry for the record. -/
def note (n : ν) : Attempt ν ε Unit := ⟨[n], .ok ()⟩

/-- An outcome about which nothing is recorded. -/
def ofExcept (x : Except ε α) : Attempt ν ε α := ⟨[], x⟩

/-- Goes on with a value; after a failure nothing more happens. -/
def bind (x : Attempt ν ε α) (f : α → Attempt ν ε β) : Attempt ν ε β :=
  match x.result with
  | .ok a =>
    let y := f a
    ⟨x.record ++ y.record, y.result⟩
  | .error e => ⟨x.record, .error e⟩

instance : Monad (Attempt ν ε) where
  pure := ok
  bind := bind

/-- Says in other words why a computation failed. -/
def mapError (f : ε → ζ) (x : Attempt ν ε α) : Attempt ν ζ α :=
  ⟨x.record, x.result.mapError f⟩

/-- Keeps the record in other words. -/
def mapRecord (f : ν → μ) (x : Attempt ν ε α) : Attempt μ ε α := ⟨x.record.map f, x.result⟩

theorem pure_def (a : α) : (pure a : Attempt ν ε α) = ⟨[], .ok a⟩ := rfl

theorem bind_def (x : Attempt ν ε α) (f : α → Attempt ν ε β) : x >>= f = x.bind f := rfl

theorem bind_ok {x : Attempt ν ε α} {f : α → Attempt ν ε β} {a : α} (h : x.result = .ok a) :
    x.bind f = ⟨x.record ++ (f a).record, (f a).result⟩ := by simp [bind, h]

theorem bind_error {x : Attempt ν ε α} {f : α → Attempt ν ε β} {e : ε}
    (h : x.result = .error e) : x.bind f = ⟨x.record, .error e⟩ := by simp [bind, h]

theorem result_bind_eq_ok_iff {x : Attempt ν ε α} {f : α → Attempt ν ε β} {b : β} :
    (x.bind f).result = .ok b ↔ ∃ a, x.result = .ok a ∧ (f a).result = .ok b := by
  cases h : x.result <;> simp [bind, h]

theorem result_bind_eq_error_iff {x : Attempt ν ε α} {f : α → Attempt ν ε β} {e : ε} :
    (x.bind f).result = .error e ↔
      x.result = .error e ∨ ∃ a, x.result = .ok a ∧ (f a).result = .error e := by
  cases h : x.result <;> simp [bind, h]

theorem mapError_ok (f : ε → ζ) (a : α) : (Except.ok a).mapError f = .ok a := rfl

theorem mapError_error (f : ε → ζ) (e : ε) :
    (Except.error e : Except ε α).mapError f = .error (f e) := rfl

theorem mapError_eq_ok_iff {x : Except ε α} {f : ε → ζ} {a : α} :
    x.mapError f = .ok a ↔ x = .ok a := by
  cases x with
  | error e => exact ⟨nofun, nofun⟩
  | ok b =>
    constructor
    · rintro ⟨⟩
      rfl
    · rintro ⟨⟩
      rfl

theorem mapError_eq_error_iff {x : Except ε α} {f : ε → ζ} {z : ζ} :
    x.mapError f = .error z ↔ ∃ e, x = .error e ∧ f e = z := by
  cases x with
  | error e =>
    constructor
    · rintro ⟨⟩
      exact ⟨e, rfl, rfl⟩
    · rintro ⟨_, ⟨⟩, rfl⟩
      rfl
  | ok b => exact ⟨nofun, nofun⟩

theorem map_eq_error_iff {x : Except ε α} {f : α → β} {e : ε} :
    x.map f = .error e ↔ x = .error e := by
  cases x with
  | error d =>
    constructor
    · rintro ⟨⟩
      rfl
    · rintro ⟨⟩
      rfl
  | ok a => exact ⟨nofun, nofun⟩

theorem result_mapError_eq_ok_iff {x : Attempt ν ε α} {f : ε → ζ} {a : α} :
    (x.mapError f).result = .ok a ↔ x.result = .ok a := by
  exact mapError_eq_ok_iff

theorem result_mapError_eq_error_iff {x : Attempt ν ε α} {f : ε → ζ} {z : ζ} :
    (x.mapError f).result = .error z ↔ ∃ e, x.result = .error e ∧ f e = z := by
  exact mapError_eq_error_iff

instance : LawfulMonad (Attempt ν ε) := LawfulMonad.mk' _
  (by rintro _ ⟨r, _ | _⟩ <;> simp [Functor.map, bind, ok])
  (by intros; simp [Bind.bind, Pure.pure, bind, ok])
  (by
    rintro _ _ _ ⟨r, _ | a⟩ f g
    · rfl
    · simp only [Bind.bind, bind]
      cases (f a).result <;> simp)

end Attempt

end MasterPackage
