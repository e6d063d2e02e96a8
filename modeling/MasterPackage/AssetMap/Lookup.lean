import MasterPackage.AssetMap.Error
import MasterPackage.AssetMap.Registry

/-!
# Looking assets up

An asset that ought to be listed is looked up in the registry, and many of them one after
the other, up to the first that is missing.
-/

namespace MasterPackage.AssetMap.Registry

/-- The first entry of an identifier that ought to be listed. -/
def locate (r : Registry) (id : AssetId) : Except Error AssetLocator :=
  match r.get? id with
  | some l => .ok l
  | none => .error (.notListed id)

/-- The first entries of identifiers, in the order asked for; the first one that is not
listed is the error. -/
def locateEach (r : Registry) : List AssetId → Except Error (List AssetLocator)
  | [] => .ok []
  | id :: ids =>
    match r.locate id with
    | .error e => .error e
    | .ok l =>
      match r.locateEach ids with
      | .error e => .error e
      | .ok ls => .ok (l :: ls)

theorem locate_eq_ok_iff {r : Registry} {id : AssetId} {l : AssetLocator} :
    r.locate id = .ok l ↔ r.get? id = some l := by
  simp only [locate]
  cases r.get? id <;> simp

end MasterPackage.AssetMap.Registry
