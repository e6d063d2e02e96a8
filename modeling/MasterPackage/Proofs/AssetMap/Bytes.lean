import MasterPackage.Proofs.AssetMap.Structure

/-!
# Asset maps in bytes

An asset map comes out of bytes that make a document whose root is accepted.  Whether it is,
and what the registry lists, does not depend on the composition that the map is wanted for:
that is only told in the errors about its structure.
-/

namespace MasterPackage.AssetMap

open Markup (Element)

variable {ctx : Context} {root : Option Element} {bytes : List UInt8} {r : Registry} {err : Error}

theorem result_ofBytes_eq_ok_iff :
    (ofBytes ctx bytes).result = .ok r ↔
      ∃ d, (Markup.Document.parse ctx.document bytes).result = .ok d ∧
        (ofRoot ctx d.root).result = .ok r := by
  simp only [ofBytes, Attempt.result_bind_eq_ok_iff, Attempt.result_mapError_eq_ok_iff]

theorem result_ofBytes_eq_error_iff :
    (ofBytes ctx bytes).result = .error err ↔
      (∃ e, (Markup.Document.parse ctx.document bytes).result = .error e ∧ .markup e = err) ∨
        ∃ d, (Markup.Document.parse ctx.document bytes).result = .ok d ∧
          Refusal ctx d.root err := by
  simp only [ofBytes, Attempt.result_bind_eq_error_iff, Attempt.result_mapError_eq_ok_iff,
    Attempt.result_mapError_eq_error_iff, result_ofRoot_eq_error_iff]

/-- The registry of an asset map is that of a list. -/
theorem exists_list_of_result_ofBytes (read : (ofBytes ctx bytes).result = .ok r) :
    ∃ ls, r = .ofList ls := by
  obtain ⟨d, -, hroot⟩ := result_ofBytes_eq_ok_iff.1 read
  obtain ⟨-, ls, -, -, -, hr⟩ := result_ofRoot_eq_ok_iff.1 hroot
  exact ⟨ls, hr⟩

/-! ## Compositions -/

/-- The same context for another composition. -/
def Context.wantedFor (ctx : Context) (composition : Option CompositionId) : Context :=
  { ctx with composition := composition }

/-- The same error for another composition. -/
def Error.wantedFor (composition : Option CompositionId) : Error → Error
  | schema e => schema { e with composition := composition }
  | markup e => markup e
  | load e => load e
  | full entries => full entries
  | notListed id => notListed id

theorem Stop.wantedFor {size : Nat} {es : List Element} (stop : Stop ctx size es err)
    (composition : Option CompositionId) :
    Stop (ctx.wantedFor composition) size es (err.wantedFor composition) := by
  cases stop with
  | fault reaches fault => exact .fault reaches fault
  | full reaches asset full => exact .full reaches asset full

theorem Refusal.wantedFor (refusal : Refusal ctx root err) (composition : Option CompositionId) :
    Refusal (ctx.wantedFor composition) root (err.wantedFor composition) := by
  cases refusal with
  | noList missing => exact .noList missing
  | stop hlist stop => exact .stop hlist (stop.wantedFor composition)

/-- For another composition the same bytes make the same registry, and the same error but for
the composition in it. -/
theorem result_ofBytes_of_composition (ctx : Context) (bytes : List UInt8)
    (composition : Option CompositionId) :
    (ofBytes (ctx.wantedFor composition) bytes).result =
      (ofBytes ctx bytes).result.mapError (·.wantedFor composition) := by
  cases hread : (ofBytes ctx bytes).result with
  | ok r =>
    obtain ⟨d, parsed, hroot⟩ := result_ofBytes_eq_ok_iff.1 hread
    obtain ⟨list, ls, hlist, entries, room, hr⟩ := result_ofRoot_eq_ok_iff.1 hroot
    have same : (ofRoot (ctx.wantedFor composition) d.root).result = .ok r :=
      result_ofRoot_eq_ok_iff.2 ⟨list, ls, hlist, entries, room, hr⟩
    exact result_ofBytes_eq_ok_iff.2 ⟨d, parsed, same⟩
  | error err =>
    rw [Attempt.mapError_error]
    apply result_ofBytes_eq_error_iff.2
    rcases result_ofBytes_eq_error_iff.1 hread with ⟨e, parsed, rfl⟩ | ⟨d, parsed, refusal⟩
    · exact .inl ⟨e, parsed, rfl⟩
    · exact .inr ⟨d, parsed, refusal.wantedFor composition⟩

end MasterPackage.AssetMap
