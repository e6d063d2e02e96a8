import MasterPackage.AssetLocator.Json
import Std.Data.HashMap

/-!
# The registry of assets

A registry lists locators in the order in which they were added, and finds the first
one of an identifier through an index.  An identifier may be listed several times;
the later entries stay in the list and are never found.

* `Registry.toList_push`, `Registry.contains_push`: what adding a locator does to the
  list and to the index.
-/

namespace MasterPackage.AssetMap

/-- Locators in order, with the place of the first one of each identifier. -/
structure Registry where
  entries : Array AssetLocator
  index : Std.HashMap AssetId Nat

namespace Registry

/-- Nothing listed yet. -/
def empty : Registry := ⟨#[], ∅⟩

/-- The number of entries. -/
def size (r : Registry) : Nat := r.entries.size

/-- Whether nothing is listed. -/
def isEmpty (r : Registry) : Bool := r.entries.isEmpty

/-- The entries in order. -/
def toList (r : Registry) : List AssetLocator := r.entries.toList

/-- Whether an identifier is listed. -/
def contains (r : Registry) (id : AssetId) : Bool := r.index.contains id

/-- Lists one more locator, after all the others. -/
def push (r : Registry) (l : AssetLocator) : Registry :=
  ⟨r.entries.push l, if r.contains l.id then r.index else r.index.insert l.id r.entries.size⟩

/-- The first entry of an identifier. -/
def get? (r : Registry) (id : AssetId) : Option AssetLocator :=
  match r.index[id]? with
  | some i => r.entries[i]?
  | none => none

/-- The registry of a list of locators. -/
def ofList (ls : List AssetLocator) : Registry := ls.foldl push empty

/-- Two registries are the same when their lists agree and so do their indexes. -/
instance : BEq Registry where
  beq r s :=
    r.entries == s.entries && r.index.size == s.index.size &&
      r.index.toList.all fun (id, i) => s.index[id]? == some i

/-! ## Identifiers listed more than once -/

/-- How often each identifier was met, and which were met a second time. -/
structure Tally where
  counts : Std.HashMap AssetId Nat
  repeated : Array AssetId

/-- Meets an identifier. -/
def Tally.meet (t : Tally) (id : AssetId) : Tally :=
  let n := t.counts.getD id 0 + 1
  ⟨t.counts.insert id n, if n = 2 then t.repeated.push id else t.repeated⟩

/-- The identifiers listed more than once, each where its second entry stands. -/
def duplicates (r : Registry) : List AssetId :=
  (r.entries.foldl (fun (t : Tally) l => t.meet l.id) ⟨∅, #[]⟩).repeated.toList

/-! ## JSON -/

/-- The registry as a JSON object with its entries. -/
def json (r : Registry) : Json := .object [("entries", .list (r.toList.map AssetLocator.json))]

/-! ## What adding does -/

theorem toList_empty : empty.toList = [] := rfl

theorem toList_push (r : Registry) (l : AssetLocator) : (r.push l).toList = r.toList ++ [l] := by
  simp [push, toList]

theorem size_push (r : Registry) (l : AssetLocator) : (r.push l).size = r.size + 1 := by
  simp [push, size]

theorem contains_push (r : Registry) (l : AssetLocator) (id : AssetId) :
    (r.push l).contains id = (l.id == id || r.contains id) := by
  simp only [push, contains]
  by_cases h : r.index.contains l.id = true
  · by_cases hid : l.id = id
    · subst hid
      simp [h]
    · simp [h, hid]
  · simp [h]

end Registry

end MasterPackage.AssetMap
