import MasterPackage.Proofs.AssetMap.Index

/-!
# Identifiers listed more than once

A registry counts its entries by their identifiers and notes an identifier when it meets it for
the second time.  So every identifier that is listed at least twice is noted, and noted once,
and no other is.
-/

namespace MasterPackage.AssetMap.Registry

/-- A tally of these identifiers, in the order in which they were met. -/
structure Tally.Exact (t : Tally) (ids : List AssetId) : Prop where
  counts : ∀ id, t.counts.getD id 0 = ids.count id
  repeated : ∀ id, id ∈ t.repeated.toList ↔ 2 ≤ ids.count id
  nodup : t.repeated.toList.Nodup

theorem Tally.exact_empty : Exact ⟨∅, #[]⟩ [] where
  counts id := by simp
  repeated id := by simp
  nodup := by simp

theorem count_concat (ids : List AssetId) (id other : AssetId) :
    (ids ++ [id]).count other = ids.count other + if id = other then 1 else 0 := by
  rw [List.count_append, List.count_singleton]
  simp

theorem eraseDups_concat (ids : List AssetId) (id : AssetId) :
    (ids ++ [id]).eraseDups = if id ∈ ids then ids.eraseDups else ids.eraseDups ++ [id] := by
  rw [List.eraseDups_append]
  by_cases listed : id ∈ ids
  · simp [List.removeAll, listed]
  · simp [List.removeAll, listed, List.eraseDups_cons]

/-- An identifier is noted when it was met exactly once before. -/
theorem Tally.Exact.toList_repeated_meet {t : Tally} {ids : List AssetId} (h : t.Exact ids)
    (id : AssetId) :
    (t.meet id).repeated.toList =
      if ids.count id = 1 then t.repeated.toList ++ [id] else t.repeated.toList := by
  simp only [Tally.meet, h.counts, Nat.reduceEqDiff]
  split
  · exact Array.toList_push
  · rfl

theorem Tally.Exact.meet {t : Tally} {ids : List AssetId} (h : t.Exact ids) (id : AssetId) :
    (t.meet id).Exact (ids ++ [id]) := by
  have hrepeated := h.toList_repeated_meet id
  refine ⟨?_, ?_, ?_⟩
  · intro other
    rw [count_concat, Tally.meet, Std.HashMap.getD_insert, h.counts, h.counts]
    by_cases hid : id = other
    · simp [hid]
    · simp [hid]
  · intro other
    rw [hrepeated, count_concat]
    split
    · next hfirst =>
      rw [List.mem_append, List.mem_singleton, h.repeated]
      by_cases hid : id = other
      · subst hid
        simp [hfirst]
      · simp [hid, Ne.symm hid]
    · next hother =>
      rw [h.repeated]
      by_cases hid : id = other
      · subst hid
        rw [if_pos rfl]
        omega
      · rw [if_neg hid, Nat.add_zero]
  · rw [hrepeated]
    split
    · next hfirst =>
      have hnew : id ∉ t.repeated.toList := by
        rw [h.repeated]
        omega
      rw [List.nodup_append]
      refine ⟨h.nodup, by simp, ?_⟩
      intro a ha b hb
      rw [List.mem_singleton.1 hb]
      exact fun same => hnew (same ▸ ha)
    · exact h.nodup

/-- What exact tallies keep with one entry more, they keep with any number of them. -/
theorem Tally.Exact.foldl_keeps {P : Tally → List AssetId → Prop}
    (keeps : ∀ (t : Tally) ids, t.Exact ids → P t ids → ∀ id, P (t.meet id) (ids ++ [id]))
    {t : Tally} {ids : List AssetId} (h : t.Exact ids) (holds : P t ids) (ls : List AssetLocator) :
    P (ls.foldl (fun t l => t.meet l.id) t) (ids ++ ls.map AssetLocator.id) := by
  induction ls generalizing t ids with
  | nil => simpa using holds
  | cons l ls ih =>
    have hrest := ih (h.meet l.id) (keeps t ids h holds l.id)
    rw [List.append_assoc, List.singleton_append] at hrest
    exact hrest

theorem Tally.Exact.foldl {t : Tally} {ids : List AssetId} (h : t.Exact ids)
    (ls : List AssetLocator) :
    (ls.foldl (fun t l => t.meet l.id) t).Exact (ids ++ ls.map AssetLocator.id) :=
  h.foldl_keeps (fun _ _ _ later id => later.meet id) h ls

/-- What a registry notes of its own entries. -/
theorem exists_tally (r : Registry) :
    ∃ t : Tally, t.Exact (r.toList.map AssetLocator.id) ∧ r.duplicates = t.repeated.toList := by
  refine ⟨_, Tally.exact_empty.foldl r.toList, ?_⟩
  rw [duplicates, toList, Array.foldl_toList]

theorem nodup_duplicates (r : Registry) : r.duplicates.Nodup := by
  obtain ⟨t, tallied, hduplicates⟩ := r.exists_tally
  rw [hduplicates]
  exact tallied.nodup

/-- Noted are the identifiers with two entries or more. -/
theorem mem_duplicates_iff (r : Registry) (id : AssetId) :
    id ∈ r.duplicates ↔ 2 ≤ (r.toList.map AssetLocator.id).count id := by
  obtain ⟨t, tallied, hduplicates⟩ := r.exists_tally
  rw [hduplicates]
  exact tallied.repeated id

end MasterPackage.AssetMap.Registry
