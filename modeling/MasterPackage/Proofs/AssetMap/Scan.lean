import MasterPackage.AssetMap.Lookup
import MasterPackage.Proofs.AssetMap.Index

/-!
# A registry and its list

A registry answers through its index what going through the list of its locators would
answer.  The index never leads past the list: it has the place of the first entry of an
identifier, for every identifier that is listed and for no other.  It follows from the list
alone, so two registries with the same list are the same.

* `Registry.locateEach_eq_ok_iff`, `Registry.locateEach_eq_error_iff`: looking many
  identifiers up, and the first that is missing.
* `Registry.beq_ofList_iff`: when two registries are the same.
* `Registry.ofList_agrees_with_list`: all questions that a registry answers.
-/

namespace MasterPackage.AssetMap.Registry

/-- One of the locators has the identifier. -/
def Lists (ls : List AssetLocator) (id : AssetId) : Prop := ∃ l ∈ ls, l.id = id

/-! ## Looking many identifiers up -/

section

variable {r : Registry} {ids : List AssetId}

theorem locate_eq_error_iff {id : AssetId} {e : Error} :
    r.locate id = .error e ↔ r.get? id = none ∧ e = .notListed id := by
  unfold locate
  cases r.get? id with
  | none => simp [eq_comm]
  | some l => simp

/-- Everything is found that was asked for, in the order asked. -/
theorem locateEach_eq_ok_iff {found : List AssetLocator} :
    r.locateEach ids = .ok found ↔ ids.map r.get? = found.map some := by
  induction ids generalizing found with
  | nil => cases found <;> simp [locateEach]
  | cons id ids ih =>
    unfold locateEach
    cases hid : r.locate id with
    | error e =>
      have hmissing : r.get? id = none := (locate_eq_error_iff.1 hid).1
      cases found <;> simp [hmissing]
    | ok l =>
      have hfound : r.get? id = some l := locate_eq_ok_iff.1 hid
      cases hids : r.locateEach ids with
      | error e =>
        have hnone (ls : List AssetLocator) : ids.map r.get? ≠ ls.map some := by
          intro h
          rw [ih.2 h] at hids
          cases hids
        cases found <;> simp [hfound, hnone]
      | ok ls =>
        have hrest : ids.map r.get? = ls.map some := ih.1 hids
        cases found <;> simp [hfound, hrest, List.map_inj_right fun _ _ => Option.some.inj]

/-- The error is the first identifier that is not found. -/
theorem locateEach_eq_error_iff {e : Error} :
    r.locateEach ids = .error e ↔
      ∃ before id after, ids = before ++ id :: after ∧ (∀ i ∈ before, r.get? i ≠ none) ∧
        r.get? id = none ∧ e = .notListed id := by
  induction ids with
  | nil => simp [locateEach]
  | cons id ids ih =>
    unfold locateEach
    cases hid : r.locate id with
    | error e' =>
      rcases locate_eq_error_iff.1 hid with ⟨hmissing, rfl⟩
      constructor
      · intro h
        exact ⟨[], id, ids, rfl, by simp, hmissing, (Except.error.inj h).symm⟩
      · intro h
        rcases h with ⟨before, i, after, hsplit, hbefore, -, rfl⟩
        cases before with
        | nil =>
          rcases List.cons.inj hsplit with ⟨rfl, -⟩
          rfl
        | cons b before =>
          rcases List.cons.inj hsplit with ⟨rfl, -⟩
          exact absurd hmissing (hbefore id (List.mem_cons_self ..))
    | ok l =>
      have hfound : r.get? id ≠ none := by simp [locate_eq_ok_iff.1 hid]
      -- the first identifier is found, so the missing one is among the others
      have hrest : r.locateEach ids = .error e ↔
          ∃ before i after, id :: ids = before ++ i :: after ∧
            (∀ j ∈ before, r.get? j ≠ none) ∧ r.get? i = none ∧ e = .notListed i := by
        rw [ih]
        constructor
        · intro h
          rcases h with ⟨before, i, after, rfl, hbefore, hi⟩
          exact ⟨id :: before, i, after, rfl, List.forall_mem_cons.2 ⟨hfound, hbefore⟩, hi⟩
        · intro h
          rcases h with ⟨before, i, after, hsplit, hbefore, hi, rfl⟩
          cases before with
          | nil =>
            rcases List.cons.inj hsplit with ⟨rfl, -⟩
            exact absurd hi hfound
          | cons b before =>
            rcases List.cons.inj hsplit with ⟨rfl, rfl⟩
            exact ⟨before, i, after, rfl, (List.forall_mem_cons.1 hbefore).2, hi, rfl⟩
      rw [← hrest]
      cases r.locateEach ids <;> simp

end

/-! ## The index -/

theorem indexed_ofList (ls : List AssetLocator) : (ofList ls).Indexed :=
  indexed_empty.foldl_push ls

theorem ofList_append (before after : List AssetLocator) :
    ofList (before ++ after) = after.foldl push (ofList before) :=
  List.foldl_append

/-- What the index leads to is the first entry of the identifier. -/
theorem Indexed.first_entry {r : Registry} (h : r.Indexed) {id : AssetId} {i : Nat}
    (hi : r.index[id]? = some i) :
    ∃ hlt : i < r.entries.size, r.entries[i].id = id ∧ ∀ j (hj : j < i), r.entries[j].id ≠ id := by
  rw [h id, List.findIdx?_eq_some_iff_getElem] at hi
  rcases hi with ⟨hlt, hid, hbefore⟩
  refine ⟨hlt, eq_of_beq hid, ?_⟩
  intro j hj heq
  exact hbefore j hj (beq_iff_eq.2 heq)

theorem contains_ofList_iff (ls : List AssetLocator) (id : AssetId) :
    (ofList ls).contains id = true ↔ Lists ls id := by
  rw [(indexed_ofList ls).contains_iff, toList_ofList, List.findIdx?_isSome, List.any_eq_true]
  simp only [Lists, beq_iff_eq]

theorem get?_ofList_ne_none_iff (ls : List AssetLocator) (id : AssetId) :
    (ofList ls).get? id ≠ none ↔ Lists ls id := by
  rw [get?_ofList, ← Option.isSome_iff_ne_none, List.find?_isSome]
  simp only [Lists, beq_iff_eq]

/-- Identifiers that are all listed are all found, each at its first place. -/
theorem locateEach_ofList_of_listed {ls : List AssetLocator} {ids : List AssetId}
    (listed : ∀ id ∈ ids, Lists ls id) :
    ∃ found, (ofList ls).locateEach ids = .ok found ∧
      found.map some = ids.map fun id => ls.find? (·.id == id) := by
  cases hall : (ofList ls).locateEach ids with
  | ok found =>
    refine ⟨found, rfl, ?_⟩
    rw [← locateEach_eq_ok_iff.1 hall]
    exact List.map_congr_left fun id _ => get?_ofList ls id
  | error e =>
    rcases locateEach_eq_error_iff.1 hall with ⟨before, id, after, rfl, -, hid, -⟩
    have hlisted : Lists ls id := listed id (by simp)
    exact absurd hid ((get?_ofList_ne_none_iff ls id).2 hlisted)

/-- Among identifiers that are not all listed, the first that is not is told. -/
theorem locateEach_ofList_of_unlisted {ls : List AssetLocator} {ids : List AssetId}
    (unlisted : ¬∀ id ∈ ids, Lists ls id) :
    ∃ before id after, ids = before ++ id :: after ∧ (∀ i ∈ before, Lists ls i) ∧
      ¬Lists ls id ∧ (ofList ls).locateEach ids = .error (.notListed id) := by
  cases hall : (ofList ls).locateEach ids with
  | ok found =>
    refine absurd ?_ unlisted
    intro id hid
    rw [← get?_ofList_ne_none_iff]
    intro hnone
    have hmem : (ofList ls).get? id ∈ found.map some :=
      locateEach_eq_ok_iff.1 hall ▸ List.mem_map_of_mem hid
    rw [hnone] at hmem
    simp at hmem
  | error e =>
    rcases locateEach_eq_error_iff.1 hall with ⟨before, id, after, hids, hbefore, hid, rfl⟩
    refine ⟨before, id, after, hids, ?_, ?_, rfl⟩
    · intro i hi
      exact (get?_ofList_ne_none_iff ls i).1 (hbefore i hi)
    · intro hlisted
      exact (get?_ofList_ne_none_iff ls id).2 hlisted hid

theorem beq_self (r : Registry) : (r == r) = true := by
  have hindex : (r.index.toList.all fun e => r.index[e.1]? == some e.2) = true := by
    rw [List.all_eq_true]
    intro entry hentry
    exact beq_iff_eq.2 (Std.HashMap.mem_toList_iff_getElem?_eq_some.1 hentry)
  change (r.entries == r.entries && r.index.size == r.index.size &&
    r.index.toList.all fun e => r.index[e.1]? == some e.2) = true
  rw [hindex, BEq.rfl, BEq.rfl]
  rfl

theorem entries_eq_of_beq {r s : Registry} (h : (r == s) = true) : r.entries = s.entries := by
  change (r.entries == s.entries && r.index.size == s.index.size &&
    r.index.toList.all fun e => s.index[e.1]? == some e.2) = true at h
  rw [Bool.and_eq_true, Bool.and_eq_true] at h
  exact eq_of_beq h.1.1

/-- Two registries are the same exactly if their lists are. -/
theorem beq_ofList_iff (ls ms : List AssetLocator) : (ofList ls == ofList ms) = true ↔ ls = ms := by
  constructor
  · intro h
    have hentries := congrArg Array.toList (entries_eq_of_beq h)
    rwa [← toList, ← toList, toList_ofList, toList_ofList] at hentries
  · intro h
    rw [h]
    exact beq_self (ofList ms)

/-! ## Every question -/

/-- However many locators have been added, a registry knows their number and whether an
identifier is among them.  In the end its entries are the locators in order, and it finds
the first of an identifier, or none if there is none.  Of many identifiers it finds each,
in the order asked for, or tells the first that is not listed.  No place in the index lies
outside the list, and the list alone decides whether two registries are the same. -/
theorem ofList_agrees_with_list (ls : List AssetLocator) :
    (∀ n,
      let r := (ls.take n).foldl push empty
      (ls.drop n).foldl push r = ofList ls ∧ r.size = (ls.take n).length ∧
        ∀ id, r.contains id = true ↔ Lists (ls.take n) id) ∧
    let r := ofList ls
    r.toList = ls ∧ r.size = ls.length ∧
    (∀ id, r.get? id = ls.find? (·.id == id) ∧ r.contains id = (r.get? id).isSome ∧
      (∀ l, r.locate id = .ok l ↔ r.get? id = some l) ∧
      ∀ e, r.locate id = .error e ↔ r.get? id = none ∧ e = .notListed id) ∧
    (∀ ids, (∀ id ∈ ids, Lists ls id) →
      ∃ found, r.locateEach ids = .ok found ∧
        found.map some = ids.map fun id => ls.find? (·.id == id)) ∧
    (∀ ids, ¬(∀ id ∈ ids, Lists ls id) →
      ∃ before id after, ids = before ++ id :: after ∧ (∀ i ∈ before, Lists ls i) ∧
        ¬Lists ls id ∧ r.locateEach ids = .error (.notListed id)) ∧
    (∀ id i, r.index[id]? = some i →
      ∃ h : i < r.entries.size, r.entries[i].id = id ∧ ∀ j (hj : j < i), r.entries[j].id ≠ id) ∧
    ∀ ms, (r == ofList ms) = true ↔ ls = ms := by
  refine ⟨?_, toList_ofList ls, size_ofList ls, ?_, fun ids => locateEach_ofList_of_listed,
    fun ids => locateEach_ofList_of_unlisted, fun id i => (indexed_ofList ls).first_entry,
    beq_ofList_iff ls⟩
  · intro n
    refine ⟨?_, size_ofList (ls.take n), contains_ofList_iff (ls.take n)⟩
    have happend := ofList_append (ls.take n) (ls.drop n)
    rw [List.take_append_drop] at happend
    exact happend.symm
  · intro id
    refine ⟨get?_ofList ls id, ?_, fun l => locate_eq_ok_iff, fun e => locate_eq_error_iff⟩
    rw [Bool.eq_iff_iff, contains_ofList_iff, ← get?_ofList_ne_none_iff, Option.isSome_iff_ne_none]

end MasterPackage.AssetMap.Registry
