import MasterPackage.Uuid

/-!
# Asset locators

An asset locator pairs an asset's identifier with the place where the asset's
first chunk is found.  The place is never empty.
-/

namespace MasterPackage

/-- An asset and where it is found. -/
structure AssetLocator where
  id : AssetId
  uri : String
  uri_ne_empty : uri ≠ ""
  deriving DecidableEq

namespace AssetLocator

/-- An asset was to be placed at an empty location. -/
structure EmptyUri where
  id : AssetId
  deriving DecidableEq

/-- The wording of the refusal. -/
def EmptyUri.message (e : EmptyUri) : String :=
  "asset locator for " ++ e.id.text ++ " has an empty URI"

/-- Places an asset, unless the location is empty. -/
def of? (id : AssetId) (uri : String) : Except EmptyUri AssetLocator :=
  if h : uri = "" then .error ⟨id⟩ else .ok ⟨id, uri, h⟩

theorem of?_of_ne {id : AssetId} {uri : String} (h : uri ≠ "") : of? id uri = .ok ⟨id, uri, h⟩ := by
  simp [of?, h]

theorem of?_eq_ok_iff {id : AssetId} {uri : String} {l : AssetLocator} :
    of? id uri = .ok l ↔ l.id = id ∧ l.uri = uri := by
  cases l with
  | mk i u hu =>
    by_cases h : uri = ""
    · subst h
      simp only [of?, ↓reduceDIte, reduceCtorEq, false_iff, not_and]
      intro _ hu'
      exact hu hu'
    · simp only [of?, h, ↓reduceDIte, Except.ok.injEq, mk.injEq]
      exact ⟨fun ⟨a, b⟩ => ⟨a.symm, b.symm⟩, fun ⟨a, b⟩ => ⟨a.symm, b.symm⟩⟩

end AssetLocator

end MasterPackage
