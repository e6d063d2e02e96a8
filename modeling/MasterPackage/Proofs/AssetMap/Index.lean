import MasterPackage.AssetMap.Registry
import Std.Data.HashMap.Lemmas

/-!
# The index of a registry

The index of a registry has the place of the first entry of every identifier.  Adding a
locator keeps it so: an identifier that is listed already keeps its place, and a new one
gets the place of the new entry.  Looking an identifier up is therefore the same as going
through the list.
-/

namespace MasterPackage.AssetMap.Registry

/-- The index has the place of the first entry of each identifier. -/
def Indexed (r : Registry) : Prop :=
  ∀ id, r.index[id]? = r.toList.findIdx? (·.id == id)

theorem indexed_empty : empty.Indexed := by
  intro id
  simp [empty, toList]

theorem Indexed.contains_iff {r : Registry} (h : r.Indexed) (id : AssetId) :
    r.contains id = true ↔ (r.toList.findIdx? (·.id == id)).isSome = true := by
  rw [← h id, contains, Std.HashMap.contains_eq_isSome_getElem?]

theorem Indexed.push {r : Registry} (h : r.Indexed) (l : AssetLocator) : (r.push l).Indexed := by
  intro id
  rw [toList_push, List.findIdx?_append, List.findIdx?_singleton]
  by_cases hlisted : r.contains l.id = true
  · -- The identifier of the locator has its place already.
    have hkeep : (r.push l).index[id]? = r.index[id]? := by
      rw [Registry.push, if_pos hlisted]
    rw [hkeep, h id]
    by_cases hid : l.id = id
    · have hfound := (h.contains_iff l.id).1 hlisted
      rw [hid] at hfound
      obtain ⟨i, hi⟩ := Option.isSome_iff_exists.1 hfound
      rw [hi]
      rfl
    · simp [hid]
  · have hnew : (r.push l).index[id]? =
        if l.id == id then some r.entries.size else r.index[id]? := by
      rw [Registry.push, if_neg hlisted, Std.HashMap.getElem?_insert]
    rw [hnew, h id]
    by_cases hid : l.id = id
    · have hmissing : r.toList.findIdx? (·.id == id) = none := by
        rw [← hid, ← Option.not_isSome_iff_eq_none, ← h.contains_iff]
        exact hlisted
      rw [hmissing]
      simp [hid, toList]
    · simp [hid]

/-- Looking an identifier up finds its first entry. -/
theorem Indexed.get?_eq {r : Registry} (h : r.Indexed) (id : AssetId) :
    r.get? id = r.toList.find? (·.id == id) := by
  rw [get?, h id, List.find?_eq_bind_findIdx?_getElem?]
  cases r.toList.findIdx? (·.id == id) with
  | none => rfl
  | some i => simp [toList]

/-! ## Lists of locators -/

theorem toList_foldl_push (r : Registry) (ls : List AssetLocator) :
    (ls.foldl push r).toList = r.toList ++ ls := by
  induction ls generalizing r with
  | nil => simp
  | cons l ls ih => rw [List.foldl_cons, ih, toList_push, List.append_assoc, List.singleton_append]

theorem Indexed.foldl_push {r : Registry} (h : r.Indexed) (ls : List AssetLocator) :
    (ls.foldl Registry.push r).Indexed := by
  induction ls generalizing r with
  | nil => exact h
  | cons l ls ih => exact ih (h.push l)

theorem toList_ofList (ls : List AssetLocator) : (ofList ls).toList = ls := by
  rw [ofList, toList_foldl_push, toList_empty, List.nil_append]

theorem size_ofList (ls : List AssetLocator) : (ofList ls).size = ls.length := by
  have h := congrArg List.length (toList_ofList ls)
  simpa [toList, size] using h

/-- A registry of a list finds the first locator of the list with the identifier. -/
theorem get?_ofList (ls : List AssetLocator) (id : AssetId) :
    (ofList ls).get? id = ls.find? (·.id == id) := by
  have h : (ofList ls).Indexed := indexed_empty.foldl_push ls
  rw [h.get?_eq id, toList_ofList]

end MasterPackage.AssetMap.Registry
