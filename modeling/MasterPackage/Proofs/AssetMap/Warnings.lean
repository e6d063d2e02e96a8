import Mathlib.Data.Finset.Card
import Mathlib.Data.List.Induction
import MasterPackage.Proofs.AssetMap.Duplicates
import MasterPackage.Proofs.AssetMap.Scan
import MasterPackage.Proofs.AssetMap.Written

/-!
# Warnings about repeated identifiers

An asset map is warned about at every asset whose identifier stood before, by the index of the
registry as far as it is filled.  The registry itself notes an identifier once, by counting, at
the second entry of it.  Both tell of the same identifiers, in the same order: the warnings
without their repetitions are the notes.
-/

namespace MasterPackage.AssetMap

open Markup (Element)

/-! ## Repeats -/

/-- What stands at those places of a list where an identifier stands that stood before. -/
def repeats (ids : List AssetId) : List AssetId :=
  ids.zipIdx.filterMap fun (id, place) => if id ∈ ids.take place then some id else none

section

variable (ids : List AssetId) (id : AssetId)

theorem repeats_concat :
    repeats (ids ++ [id]) = if id ∈ ids then repeats ids ++ [id] else repeats ids := by
  have before : ∀ entry ∈ ids.zipIdx,
      (if entry.1 ∈ (ids ++ [id]).take entry.2 then some entry.1 else none) =
        if entry.1 ∈ ids.take entry.2 then some entry.1 else none := by
    intro entry hentry
    have place : entry.2 < ids.length := List.snd_lt_of_mem_zipIdx hentry
    rw [List.take_append_of_le_length (Nat.le_of_lt place)]
  rw [repeats, List.zipIdx_append, List.filterMap_append, List.filterMap_congr before]
  by_cases listed : id ∈ ids
  · simp [repeats, listed]
  · simp [repeats, listed]

/-- One is warned about every entry of an identifier but the first. -/
theorem count_repeats : (repeats ids).count id = ids.count id - 1 := by
  induction ids using List.reverseRecOn with
  | nil => rfl
  | append_singleton ids last ih =>
    rw [repeats_concat, Registry.count_concat]
    split
    · next listed =>
      rw [Registry.count_concat, ih]
      by_cases same : last = id
      · have positive : 0 < ids.count id := List.count_pos_iff.2 (same ▸ listed)
        rw [if_pos same]
        omega
      · rw [if_neg same, Nat.add_zero, Nat.add_zero]
    · next fresh =>
      rw [ih]
      by_cases same : last = id
      · have none : ids.count id = 0 := List.count_eq_zero.2 (same ▸ fresh)
        rw [if_pos same, none]
      · rw [if_neg same, Nat.add_zero]

theorem mem_repeats_iff : id ∈ repeats ids ↔ 2 ≤ ids.count id := by
  rw [← List.count_pos_iff, count_repeats]
  omega

/-- Every entry is the first of its identifier, or one is warned about it. -/
theorem length_repeats_add_card : (repeats ids).length + ids.toFinset.card = ids.length := by
  induction ids using List.reverseRecOn with
  | nil => rfl
  | append_singleton ids last ih =>
    have distinct : (ids ++ [last]).toFinset = insert last ids.toFinset := by
      ext other
      simp
    rw [repeats_concat, distinct, List.length_append, List.length_singleton, ← ih]
    split
    · next listed =>
      rw [Finset.insert_eq_of_mem (List.mem_toFinset.2 listed), List.length_append,
        List.length_singleton]
      omega
    · next fresh =>
      rw [Finset.card_insert_of_notMem (mt List.mem_toFinset.1 fresh)]
      omega

end

namespace Registry

variable {t : Tally} {ids : List AssetId}

/-- An identifier is noted when one is first warned about it. -/
theorem Tally.Exact.eraseDups_meet (h : t.Exact ids)
    (noted : t.repeated.toList = (repeats ids).eraseDups) (id : AssetId) :
    (t.meet id).repeated.toList = (repeats (ids ++ [id])).eraseDups := by
  rw [h.toList_repeated_meet, repeats_concat, noted]
  by_cases listed : id ∈ ids
  · have positive : 0 < ids.count id := List.count_pos_iff.2 listed
    rw [if_pos listed, eraseDups_concat]
    by_cases warned : id ∈ repeats ids
    · have several : 2 ≤ ids.count id := (mem_repeats_iff ids id).1 warned
      rw [if_pos warned, if_neg (by omega)]
    · have few : ¬2 ≤ ids.count id := mt (mem_repeats_iff ids id).2 warned
      rw [if_neg warned, if_pos (by omega)]
  · rw [if_neg listed, List.count_eq_zero.2 listed, if_neg Nat.zero_ne_one]

/-- A registry notes what one is warned about, without the repetitions. -/
theorem eraseDups_repeats (r : Registry) :
    (repeats (r.toList.map AssetLocator.id)).eraseDups = r.duplicates := by
  have hfold := Tally.exact_empty.foldl_keeps
    (P := fun t ids => t.repeated.toList = (repeats ids).eraseDups)
    (fun _ _ tallied noted id => tallied.eraseDups_meet noted id) rfl r.toList
  rw [List.nil_append] at hfold
  rw [duplicates, ← Array.foldl_toList]
  exact hfold.symm

end Registry

/-! ## Warnings -/

section

variable {ctx : Context} {e : Element} {es : List Element} {before ls : List AssetLocator}

/-- An asset by itself is nothing to warn about. -/
theorem upTo_record_readAsset (ctx : Context) (e : Element) :
    Note.upTo .warn (readAsset ctx e).record = [] := by
  unfold readAsset
  cases readId ctx e with
  | error err => rfl
  | ok id =>
    change Note.upTo .warn (Attempt.bind (.ofExcept (readChunk ctx e id)) _).record = []
    rcases readChunk ctx e id with err | ⟨chunk, several⟩
    · rfl
    · cases several <;> rfl

/-- One is warned about an entry exactly if its identifier is listed. -/
theorem upTo_record_enter (ctx : Context) (r : Registry) (l : AssetLocator) :
    Note.upTo .warn (enter ctx r l).record =
      if r.contains l.id then [duplicateNote ctx.document l.id] else [] := by
  unfold enter
  by_cases listed : r.contains l.id = true
  · rw [if_pos listed, if_pos listed]
    cases ctx.room r.size <;> rfl
  · rw [if_neg listed, if_neg listed]
    cases ctx.room r.size <;> rfl

/-- The assets that were entered, and the next one. -/
theorem upTo_record_enter_ofList (ctx : Context) (before : List AssetLocator) (l : AssetLocator) :
    (repeats (before.map AssetLocator.id)).map (duplicateNote ctx.document) ++
        Note.upTo .warn (enter ctx (.ofList before) l).record =
      (repeats ((before ++ [l]).map AssetLocator.id)).map (duplicateNote ctx.document) := by
  have listed_iff : (Registry.ofList before).contains l.id = true ↔
      l.id ∈ before.map AssetLocator.id :=
    (Registry.contains_ofList_iff before l.id).trans List.mem_map.symm
  rw [upTo_record_enter, List.map_append, List.map_singleton, repeats_concat]
  by_cases listed : l.id ∈ before.map AssetLocator.id
  · rw [if_pos (listed_iff.2 listed), if_pos listed, List.map_append, List.map_singleton]
  · rw [if_neg (mt listed_iff.1 listed), if_neg listed, List.append_nil]

theorem upTo_record_readAssets_skip (other : e.isNamed "Asset" = false) (r : Registry) :
    Note.upTo .warn (readAssets ctx r (e :: es)).record =
      Note.upTo .warn (readAssets ctx r es).record := by
  rw [readAssets, other, if_neg Bool.false_ne_true]
  rfl

theorem upTo_record_readAssets_entry {r : Registry} {l : AssetLocator}
    (room : ctx.room r.size = true) (named : e.isNamed "Asset" = true)
    (entry : Entry ctx.baseDir e l) :
    Note.upTo .warn (readAssets ctx r (e :: es)).record =
      Note.upTo .warn (enter ctx r l).record ++
        Note.upTo .warn (readAssets ctx (r.push l) es).record := by
  rw [readAssets, if_pos named, Attempt.bind_ok (result_readAsset_eq_ok_iff.2 entry)]
  simp only
  rw [Attempt.bind_ok (enter_of_room room l), Note.upTo_append, upTo_record_readAsset,
    List.nil_append, Note.upTo_append]

/-- While assets are entered, one is warned about the repeats among them and those before. -/
theorem upTo_record_readAssets (entries : Entries ctx.baseDir (assetsAmong es) ls)
    (room : ctx.HasRoom before.length ls.length) :
    (repeats (before.map AssetLocator.id)).map (duplicateNote ctx.document) ++
        Note.upTo .warn (readAssets ctx (.ofList before) es).record =
      (repeats ((before ++ ls).map AssetLocator.id)).map (duplicateNote ctx.document) := by
  induction es generalizing before ls with
  | nil =>
    cases entries with
    | nil =>
      rw [List.append_nil]
      exact List.append_nil _
  | cons e es ih =>
    cases named : e.isNamed "Asset" with
    | false =>
      rw [assetsAmong_cons_of_other named] at entries
      rw [upTo_record_readAssets_skip named]
      exact ih entries room
    | true =>
      rw [assetsAmong_cons_of_named named] at entries
      cases entries with
      | @cons _ l _ ls entry entries =>
        obtain ⟨now, later⟩ := Context.hasRoom_succ_iff.1 room
        have length : (before ++ [l]).length = before.length + 1 := List.length_append
        have entered : (Registry.ofList before).push l = .ofList (before ++ [l]) :=
          (Registry.ofList_append before [l]).symm
        rw [← Registry.size_ofList before] at now
        rw [← length] at later
        have hrest := ih entries later
        rw [List.append_assoc, List.singleton_append] at hrest
        rw [upTo_record_readAssets_entry now named entry, entered, ← List.append_assoc,
          upTo_record_enter_ofList]
        exact hrest

/-- When an asset map is read, one is warned about each asset whose identifier an asset before
it has, in the order of the assets, and about nothing else.  So there is one warning for each
entry, less one for each identifier; and without its repetitions, what one is warned about is
what the registry notes as duplicates, in the same order. -/
theorem warnings_of_ofRoot {root : Option Element} {r : Registry}
    (read : (ofRoot ctx root).result = .ok r) :
    ∃ list, ListOf root list ∧ Entries ctx.baseDir (list.childrenNamed "Asset") r.toList ∧
      let ids := r.toList.map AssetLocator.id
      let warnings := Note.upTo .warn (ofRoot ctx root).record
      warnings = (repeats ids).map (duplicateNote ctx.document) ∧
      warnings.length + ids.toFinset.card = r.size ∧
      (repeats ids).eraseDups = r.duplicates := by
  obtain ⟨list, ls, hlist, entries, room, rfl⟩ := result_ofRoot_eq_ok_iff.1 read
  have told : Note.upTo .warn (ofRoot ctx root).record =
      (repeats (ls.map AssetLocator.id)).map (duplicateNote ctx.document) := by
    rw [ofRoot, Attempt.bind_ok (assetList_eq_ok_iff.2 hlist)]
    exact @upTo_record_readAssets _ _ [] _ entries room
  have noted := (Registry.ofList ls).eraseDups_repeats
  rw [Registry.toList_ofList] at noted ⊢
  refine ⟨list, hlist, entries, told, ?_, noted⟩
  rw [told, List.length_map, length_repeats_add_card, List.length_map, Registry.size_ofList]

end

/-! ## A map with entries around others -/

namespace Sample

/-- Another asset, of sixteen other equal bytes. -/
def inner : Row where
  id := ⟨⟨List.replicate 16 0xCD, by decide⟩⟩
  spelling :=
    ⟨['\t'], "urn:UUID:".toList, "cdcdcdcd-cdcd-cdcd-cdcd-cdcdcdcdcdcd".toList, [' ', '\n'],
      by decide, .inr (by decide), by decide, by decide⟩
  path := "d.mxf"
  path_ne_nil := by decide
  inAsset := ""
  inChunkList := ""
  inChunk := ""

/-- The entries of one asset around those of the other, and one more behind. -/
def nested : Sheet := ⟨"", "", [row, inner, inner, row, row]⟩

def here : Context := .roomy "ASSETMAP.xml" "" none

end Sample

/-- One is warned twice about the outer asset, which is noted once, and after the inner one. -/
theorem warnings_of_nested_rows :
    ∃ r, (ofRoot Sample.here (some Sample.nested.element)).result = .ok r ∧
      Note.upTo .warn (ofRoot Sample.here (some Sample.nested.element)).record =
        [Sample.inner.id, Sample.row.id, Sample.row.id].map (duplicateNote "ASSETMAP.xml") ∧
      r.duplicates = [Sample.inner.id, Sample.row.id] := by
  have room : ∀ n < Sample.nested.rows.length, Sample.here.room n = true := fun _ _ => rfl
  have read := ofRoot_element room
  obtain ⟨_, -, -, told, -, noted⟩ := warnings_of_ofRoot read
  have ids : repeats
      ((Registry.ofList (Sample.nested.rows.map (Row.locator ""))).toList.map AssetLocator.id) =
        [Sample.inner.id, Sample.row.id, Sample.row.id] := by
    rw [Registry.toList_ofList]
    decide
  refine ⟨_, read, ?_, ?_⟩
  · rw [told]
    exact congrArg _ ids
  · rw [← noted]
    exact (congrArg List.eraseDups ids).trans (by decide)

end MasterPackage.AssetMap
