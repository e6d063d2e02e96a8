import Mathlib.Data.List.Induction
import MasterPackage.Proofs.AssetMap.Duplicates

/-!
# The order of repeated identifiers

A registry notes an identifier when it comes to the second entry of it, so what it notes is in
the order of the second entries.  That is the order of the first entries as long as no two
identifiers have their entries nested, the first and the second of one around those of the
other.
-/

namespace MasterPackage.AssetMap.Registry

/-- At `place` in a list stands `id`, with `earlier` entries of it before. -/
def Stands (ids : List AssetId) (earlier : Nat) (id : AssetId) (place : Nat) : Prop :=
  ids[place]? = some id ∧ (ids.take place).count id = earlier

instance (ids : List AssetId) (earlier : Nat) (id : AssetId) (place : Nat) :
    Decidable (Stands ids earlier id place) :=
  inferInstanceAs (Decidable (_ ∧ _))

/-- Of the entries of `x` and of `y` that have as many before them, that of `x` comes first. -/
def Precedes (ids : List AssetId) (earlier : Nat) (x y : AssetId) : Prop :=
  ∃ m n, Stands ids earlier x m ∧ Stands ids earlier y n ∧ m < n

variable {ids : List AssetId} {earlier : Nat} {id x y : AssetId}

/-! ## Places -/

theorem Stands.lt_length {place : Nat} (h : Stands ids earlier id place) : place < ids.length :=
  (List.getElem?_eq_some_iff.1 h.1).1

theorem stands_concat (ids : List AssetId) (id : AssetId) :
    Stands (ids ++ [id]) (ids.count id) id ids.length :=
  ⟨List.getElem?_concat_length, by rw [List.take_left]⟩

/-- A place stays what it is when more is listed. -/
theorem Stands.append {place : Nat} (h : Stands ids earlier id place) (more : List AssetId) :
    Stands (ids ++ more) earlier id place := by
  have hlength := h.lt_length
  constructor
  · rw [List.getElem?_append_left hlength]
    exact h.1
  · rw [List.take_append_of_le_length (Nat.le_of_lt hlength)]
    exact h.2

/-- Each further entry has one more before it. -/
theorem Stands.count_succ {place : Nat} (h : Stands ids earlier id place) :
    (ids.take (place + 1)).count id = earlier + 1 := by
  rw [List.take_add_one, h.1, Option.toList_some, List.count_append, h.2, List.count_singleton_self]

theorem Stands.not_lt {m n : Nat} (hm : Stands ids earlier id m) (hn : Stands ids earlier id n) :
    ¬m < n := by
  intro hlt
  have hmore : (ids.take (m + 1)).count id ≤ (ids.take n).count id :=
    (List.take_sublist_take_left hlt).count_le id
  rw [hm.count_succ, hn.2] at hmore
  exact Nat.not_succ_le_self earlier hmore

theorem Stands.unique {m n : Nat} (hm : Stands ids earlier id m) (hn : Stands ids earlier id n) :
    m = n :=
  Nat.le_antisymm (Nat.not_lt.1 (hn.not_lt hm)) (Nat.not_lt.1 (hm.not_lt hn))

/-- An identifier with more entries has one with so many before it. -/
theorem exists_stands (h : earlier < ids.count id) : ∃ place, Stands ids earlier id place := by
  induction ids using List.reverseRecOn with
  | nil => cases h
  | append_singleton ids last ih =>
    by_cases hbefore : earlier < ids.count id
    · obtain ⟨place, hplace⟩ := ih hbefore
      exact ⟨place, hplace.append [last]⟩
    · -- The entry is the last one of the list.
      rw [count_concat] at h
      by_cases hlast : last = id
      · rw [if_pos hlast] at h
        have hcount : ids.count id = earlier := by omega
        rw [hlast, ← hcount]
        exact ⟨ids.length, stands_concat ids id⟩
      · rw [if_neg hlast] at h
        exact absurd h hbefore

/-! ## The order of two identifiers -/

theorem Precedes.append (h : Precedes ids earlier x y) (more : List AssetId) :
    Precedes (ids ++ more) earlier x y := by
  obtain ⟨m, n, hm, hn, hlt⟩ := h
  exact ⟨m, n, hm.append more, hn.append more, hlt⟩

theorem Precedes.asymm (h : Precedes ids earlier x y) : ¬Precedes ids earlier y x := by
  intro hback
  obtain ⟨m, n, hm, hn, hlt⟩ := h
  obtain ⟨n', m', hn', hm', hgt⟩ := hback
  rw [hm.unique hm', hn.unique hn'] at hlt
  exact absurd hgt (Nat.lt_asymm hlt)

theorem precedes_or (hx : earlier < ids.count x) (hy : earlier < ids.count y) (hxy : x ≠ y) :
    Precedes ids earlier x y ∨ Precedes ids earlier y x := by
  obtain ⟨m, hm⟩ := exists_stands hx
  obtain ⟨n, hn⟩ := exists_stands hy
  rcases Nat.lt_trichotomy m n with hlt | rfl | hgt
  · exact .inl ⟨m, n, hm, hn, hlt⟩
  · exact absurd (Option.some.inj (hm.1.symm.trans hn.1)) hxy
  · exact .inr ⟨n, m, hn, hm, hgt⟩

/-! ## What is noted -/

/-- What is noted last has its second entry last. -/
theorem Tally.Exact.ordered_meet {t : Tally} (h : t.Exact ids)
    (ordered : t.repeated.toList.Pairwise (Precedes ids 1)) (id : AssetId) :
    (t.meet id).repeated.toList.Pairwise (Precedes (ids ++ [id]) 1) := by
  have hbefore : t.repeated.toList.Pairwise (Precedes (ids ++ [id]) 1) :=
    ordered.imp fun hxy => hxy.append [id]
  rw [h.toList_repeated_meet id]
  split
  · next hfirst =>
    rw [List.pairwise_append]
    refine ⟨hbefore, List.pairwise_singleton _ _, ?_⟩
    intro x hx y hy
    rw [List.mem_singleton.1 hy]
    obtain ⟨m, hm⟩ := exists_stands ((h.repeated x).1 hx)
    have hlast : Stands (ids ++ [id]) 1 id ids.length := hfirst ▸ stands_concat ids id
    exact ⟨m, ids.length, hm.append [id], hlast, hm.lt_length⟩
  · exact hbefore

theorem Tally.Exact.ordered_foldl {t : Tally} (h : t.Exact ids)
    (ordered : t.repeated.toList.Pairwise (Precedes ids 1)) (ls : List AssetLocator) :
    (ls.foldl (fun t l => t.meet l.id) t).repeated.toList.Pairwise
      (Precedes (ids ++ ls.map AssetLocator.id) 1) :=
  h.foldl_keeps (P := fun t ids => t.repeated.toList.Pairwise (Precedes ids 1))
    (fun _ _ tallied ordered id => tallied.ordered_meet ordered id) ordered ls

theorem ordered_duplicates (r : Registry) :
    r.duplicates.Pairwise (Precedes (r.toList.map AssetLocator.id) 1) := by
  have hfold := Tally.exact_empty.ordered_foldl List.Pairwise.nil r.toList
  rw [List.nil_append] at hfold
  rw [duplicates, ← Array.foldl_toList]
  exact hfold

/-- The order of the second entries is that of the first ones where no two identifiers have
their entries nested. -/
theorem ordered_by_first_iff (r : Registry) :
    r.duplicates.Pairwise (Precedes (r.toList.map AssetLocator.id) 0) ↔
      ∀ x ∈ r.duplicates, ∀ y ∈ r.duplicates,
        Precedes (r.toList.map AssetLocator.id) 0 x y →
          Precedes (r.toList.map AssetLocator.id) 1 x y := by
  have hsecond := r.ordered_duplicates
  have hcount := fun id => (r.mem_duplicates_iff id).1
  generalize r.toList.map AssetLocator.id = ids at hsecond hcount ⊢
  constructor
  · intro hfirst
    have hself : ∀ x ∈ r.duplicates, Precedes ids 0 x x → Precedes ids 1 x x :=
      fun x _ hxx => absurd hxx hxx.asymm
    have hforth : r.duplicates.Pairwise fun x y => Precedes ids 0 x y → Precedes ids 1 x y := by
      refine hsecond.imp ?_
      intro x y hxy _
      exact hxy
    have hback : r.duplicates.Pairwise fun x y => Precedes ids 0 y x → Precedes ids 1 y x := by
      refine hfirst.imp ?_
      intro x y hxy hyx
      exact absurd hyx hxy.asymm
    intro x hx y hy
    exact hforth.forall_of_forall_of_flip hself hback hx hy
  · intro hnested
    refine (r.nodup_duplicates.and hsecond).imp_of_mem ?_
    intro x y hx hy hxy
    have hx0 : 0 < ids.count x := Nat.lt_of_succ_lt (hcount x hx)
    have hy0 : 0 < ids.count y := Nat.lt_of_succ_lt (hcount y hy)
    rcases precedes_or hx0 hy0 hxy.1 with hforth | hback
    · exact hforth
    · exact absurd (hnested y hy x hx hback) hxy.2.asymm

/-! ## Every list of locators -/

/-- The registry of a list notes each identifier with two entries or more once, and no other.  It
notes them in the order of their second entries, which is the order of the first entries exactly
if, of any two of them, the one with the earlier first entry has the earlier second one too. -/
theorem duplicates_by_second_entry (ls : List AssetLocator) :
    (∀ id, id ∈ (ofList ls).duplicates ↔ 2 ≤ (ls.map AssetLocator.id).count id) ∧
    (ofList ls).duplicates.Nodup ∧
    (ofList ls).duplicates.Pairwise (Precedes (ls.map AssetLocator.id) 1) ∧
    ((ofList ls).duplicates.Pairwise (Precedes (ls.map AssetLocator.id) 0) ↔
      ∀ x y, 2 ≤ (ls.map AssetLocator.id).count x → 2 ≤ (ls.map AssetLocator.id).count y →
        Precedes (ls.map AssetLocator.id) 0 x y → Precedes (ls.map AssetLocator.id) 1 x y) := by
  have hnoted := (ofList ls).mem_duplicates_iff
  have hsecond := (ofList ls).ordered_duplicates
  have hfirst := (ofList ls).ordered_by_first_iff
  rw [toList_ofList] at hnoted hsecond hfirst
  refine ⟨hnoted, (ofList ls).nodup_duplicates, hsecond, hfirst.trans ?_⟩
  simp only [hnoted]
  exact ⟨fun h x y hx hy => h x hx y hy, fun h x hx y hy => h x y hx hy⟩

namespace Sample

def outer : AssetId := ⟨⟨List.replicate 16 1, rfl⟩⟩

def inner : AssetId := ⟨⟨List.replicate 16 2, rfl⟩⟩

/-- The entries of one identifier around those of the other. -/
def nested : List AssetLocator :=
  [⟨outer, "a", by decide⟩, ⟨inner, "b", by decide⟩, ⟨inner, "c", by decide⟩,
    ⟨outer, "d", by decide⟩]

end Sample

/-- What has its first entry first is not noted first when its second entry comes later. -/
theorem duplicates_of_nested_entries :
    2 ≤ (Sample.nested.map AssetLocator.id).count Sample.outer ∧
    2 ≤ (Sample.nested.map AssetLocator.id).count Sample.inner ∧
    Precedes (Sample.nested.map AssetLocator.id) 0 Sample.outer Sample.inner ∧
    ¬(ofList Sample.nested).duplicates.Pairwise
      (Precedes (Sample.nested.map AssetLocator.id) 0) := by
  have houter : 2 ≤ (Sample.nested.map AssetLocator.id).count Sample.outer := by decide
  have hinner : 2 ≤ (Sample.nested.map AssetLocator.id).count Sample.inner := by decide
  have hfirst : Precedes (Sample.nested.map AssetLocator.id) 0 Sample.outer Sample.inner :=
    ⟨0, 1, by decide, by decide, by decide⟩
  refine ⟨houter, hinner, hfirst, fun hordered => ?_⟩
  have hboth := (ordered_by_first_iff (ofList Sample.nested)).1
  simp only [mem_duplicates_iff, toList_ofList] at hboth
  have hsecond : Precedes (Sample.nested.map AssetLocator.id) 1 Sample.inner Sample.outer :=
    ⟨2, 3, by decide, by decide, by decide⟩
  exact hsecond.asymm (hboth hordered _ houter _ hinner hfirst)

end MasterPackage.AssetMap.Registry
