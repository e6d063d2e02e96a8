import MasterPackage.AssetMap.Schema
import MasterPackage.Proofs.AssetMap.Index
import MasterPackage.Proofs.Markup.Queries

/-!
# The structure of asset maps

What the tree of an asset map must have for the map to be read, and what is wrong with it
otherwise, told by the tree alone: `Identified` and `Placed` say what makes an element an
asset, `Fault` names the first thing that keeps it from being one.

* `result_readAsset_eq_ok_iff`, `result_readAsset_eq_error_iff`: one asset.
* `result_readAssets_eq_ok_iff`, `result_readAssets_eq_error_iff`: a list of elements, by
  induction along it, into a registry that may run out of room.
* `result_ofRoot_eq_ok_iff`, `result_ofRoot_eq_error_iff`: a whole map.
* `ofRoot_by_structure`: a whole map, with room for every asset.
-/

namespace MasterPackage.AssetMap

open Markup (Element)

/-! ## Assets -/

/-- The identifier of an asset. -/
def Identified (e : Element) (id : AssetId) : Prop :=
  ∃ text, e.Says "Id" text ∧ AssetId.parse text = .ok id

/-- The chunk of an asset: the first one of its first list of chunks. -/
def HasChunk (e chunk : Element) : Prop :=
  ∃ list, e.First "ChunkList" list ∧ list.First "Chunk" chunk

/-- The path of an asset. -/
def Placed (e : Element) (path : String) : Prop :=
  ∃ chunk, HasChunk e chunk ∧ chunk.Says "Path" path

/-- The first thing wrong with an asset: the element it is about, what is wrong with that, and
the identifier of the asset if it could be read. -/
inductive Fault (e : Element) : String → Lack → Option AssetId → Prop
  | noId : e.Silent "Id" → Fault e "Id" .missingOrEmpty none
  | badId {text : String} {f : Uuid.Error} :
    e.Says "Id" text → AssetId.parse text = .error f → Fault e "Id" (.badId f) none
  | noChunkList {id : AssetId} :
    Identified e id → e.Lacks "ChunkList" → Fault e "ChunkList" .missing (some id)
  | noChunk {id : AssetId} {list : Element} :
    Identified e id → e.First "ChunkList" list → list.Lacks "Chunk" →
    Fault e "Chunk" .missing (some id)
  | noPath {id : AssetId} {chunk : Element} :
    Identified e id → HasChunk e chunk → chunk.Silent "Path" →
    Fault e "Path" .missingOrEmpty (some id)

/-- An element is an asset, and this is its entry. -/
def Entry (baseDir : String) (e : Element) (l : AssetLocator) : Prop :=
  Identified e l.id ∧ ∃ path, Placed e path ∧ l.uri = Location.resolve baseDir path

/-- Every one of the elements is an asset, and these are their entries in order. -/
inductive Entries (baseDir : String) : List Element → List AssetLocator → Prop
  | nil : Entries baseDir [] []
  | cons {e : Element} {l : AssetLocator} {es : List Element} {ls : List AssetLocator} :
    Entry baseDir e l → Entries baseDir es ls → Entries baseDir (e :: es) (l :: ls)

variable {ctx : Context} {e chunk : Element} {id : AssetId} {err : Error} {l : AssetLocator}

theorem readId_eq_ok_iff : readId ctx e = .ok id ↔ Identified e id := by
  simp only [readId, Identified, ← Element.textOf?_eq_some_iff]
  cases e.textOf? "Id" with
  | none => simp
  | some text => simp [Attempt.mapError_eq_ok_iff]

theorem readId_eq_error_iff :
    readId ctx e = .error err ↔
      (e.Silent "Id" ∧ ctx.lacks "Id" .missingOrEmpty none = err) ∨
        ∃ text f, e.Says "Id" text ∧ AssetId.parse text = .error f ∧
          ctx.lacks "Id" (.badId f) none = err := by
  simp only [readId, ← Element.textOf?_eq_some_iff, ← Element.textOf?_eq_none_iff]
  cases e.textOf? "Id" with
  | none => simp
  | some text => simp [Attempt.mapError_eq_error_iff]

theorem readChunk_eq_ok_iff :
    (∃ several, readChunk ctx e id = .ok (chunk, several)) ↔ HasChunk e chunk := by
  simp only [readChunk, HasChunk, ← Element.child?_eq_some_iff, Element.child?_eq_head? _ "Chunk"]
  cases e.child? "ChunkList" with
  | none => simp
  | some list =>
    cases hchunks : list.childrenNamed "Chunk" with
    | nil => simp [hchunks]
    | cons first others => simpa [hchunks] using fun _ => Classical.em (others = [])

theorem readChunk_eq_error_iff :
    readChunk ctx e id = .error err ↔
      (e.Lacks "ChunkList" ∧ ctx.lacks "ChunkList" .missing (some id) = err) ∨
        ∃ list, e.First "ChunkList" list ∧ list.Lacks "Chunk" ∧
          ctx.lacks "Chunk" .missing (some id) = err := by
  simp only [readChunk, ← Element.child?_eq_some_iff, ← Element.child?_eq_none_iff,
    Element.child?_eq_head? _ "Chunk"]
  cases e.child? "ChunkList" with
  | none => simp
  | some list =>
    cases hchunks : list.childrenNamed "Chunk" with
    | nil => simp [hchunks]
    | cons first others => simp [hchunks]

/-- A path that says something always leads somewhere. -/
theorem of?_resolve {path : String} (h : path ≠ "") (baseDir : String) (id : AssetId) :
    ∃ l, AssetLocator.of? id (Location.resolve baseDir path) = .ok l := by
  have hchars : path.toList ≠ [] := fun hnil => h (String.toList_eq_nil_iff.1 hnil)
  have huri : Location.resolve baseDir path ≠ "" := by
    intro hempty
    have hnil := congrArg String.toList hempty
    rw [Location.resolve, String.toList_ofList] at hnil
    exact Location.Chars.resolve_ne_nil baseDir.toList hchars hnil
  exact ⟨_, AssetLocator.of?_of_ne huri⟩

theorem readPlace_eq_ok_iff :
    readPlace ctx chunk id = .ok l ↔
      l.id = id ∧ ∃ path, chunk.Says "Path" path ∧ l.uri = Location.resolve ctx.baseDir path := by
  simp only [readPlace, ← Element.textOf?_eq_some_iff]
  cases chunk.textOf? "Path" with
  | none => simp
  | some path => simp [Attempt.mapError_eq_ok_iff, AssetLocator.of?_eq_ok_iff]

theorem readPlace_eq_error_iff :
    readPlace ctx chunk id = .error err ↔
      chunk.Silent "Path" ∧ ctx.lacks "Path" .missingOrEmpty (some id) = err := by
  simp only [readPlace, ← Element.textOf?_eq_none_iff]
  cases hpath : chunk.textOf? "Path" with
  | none => simp
  | some path =>
    obtain ⟨l, placed⟩ :=
      of?_resolve (Element.textOf?_eq_some_iff.1 hpath).ne_empty ctx.baseDir id
    simp [placed, Attempt.mapError_ok]

/-- What is noted of several chunks makes no difference to the entry. -/
theorem result_readAsset (ctx : Context) (e : Element) :
    (readAsset ctx e).result =
      (readId ctx e).bind fun id =>
        (readChunk ctx e id).bind fun found => readPlace ctx found.1 id := by
  unfold readAsset
  cases readId ctx e with
  | error err => rfl
  | ok id =>
    change (Attempt.bind (.ofExcept (readChunk ctx e id)) _).result =
      (readChunk ctx e id).bind fun found => readPlace ctx found.1 id
    rcases readChunk ctx e id with err | ⟨chunk, several⟩
    · rfl
    · cases several <;> rfl

theorem result_readAsset_eq_ok_iff :
    (readAsset ctx e).result = .ok l ↔ Entry ctx.baseDir e l := by
  rw [result_readAsset]
  constructor
  · intro h
    cases hid : readId ctx e with
    | error err => simp [hid, Except.bind] at h
    | ok id =>
      rcases hchunk : readChunk ctx e id with err | ⟨chunk, several⟩
      · simp [hid, hchunk, Except.bind] at h
      · simp only [hid, hchunk, Except.bind] at h
        obtain ⟨rfl, path, told, uri⟩ := readPlace_eq_ok_iff.1 h
        exact ⟨readId_eq_ok_iff.1 hid,
          path, ⟨chunk, readChunk_eq_ok_iff.1 ⟨several, hchunk⟩, told⟩, uri⟩
  · rintro ⟨identified, path, ⟨chunk, has, told⟩, uri⟩
    have found : ∃ several, readChunk ctx e l.id = .ok (chunk, several) :=
      readChunk_eq_ok_iff.2 has
    obtain ⟨several, hchunk⟩ := found
    simp only [readId_eq_ok_iff.2 identified, hchunk, Except.bind]
    exact readPlace_eq_ok_iff.2 ⟨rfl, path, told, uri⟩

/-- The error of an asset is about the first thing wrong with it. -/
theorem result_readAsset_eq_error_iff :
    (readAsset ctx e).result = .error err ↔
      ∃ element lack asset, Fault e element lack asset ∧ ctx.lacks element lack asset = err := by
  rw [result_readAsset]
  constructor
  · intro h
    cases hid : readId ctx e with
    | error f =>
      simp only [hid, Except.bind, Except.error.injEq] at h
      subst h
      rcases readId_eq_error_iff.1 hid with ⟨silent, rfl⟩ | ⟨text, f, told, parsed, rfl⟩
      · exact ⟨_, _, _, .noId silent, rfl⟩
      · exact ⟨_, _, _, .badId told parsed, rfl⟩
    | ok id =>
      have identified := readId_eq_ok_iff.1 hid
      rcases hchunk : readChunk ctx e id with f | ⟨chunk, several⟩
      · simp only [hid, hchunk, Except.bind, Except.error.injEq] at h
        subst h
        rcases readChunk_eq_error_iff.1 hchunk with ⟨lacks, rfl⟩ | ⟨list, first, lacks, rfl⟩
        · exact ⟨_, _, _, .noChunkList identified lacks, rfl⟩
        · exact ⟨_, _, _, .noChunk identified first lacks, rfl⟩
      · simp only [hid, hchunk, Except.bind] at h
        obtain ⟨silent, rfl⟩ := readPlace_eq_error_iff.1 h
        exact ⟨_, _, _, .noPath identified (readChunk_eq_ok_iff.1 ⟨several, hchunk⟩) silent, rfl⟩
  · rintro ⟨element, lack, asset, fault, rfl⟩
    cases fault with
    | noId silent =>
      rw [readId_eq_error_iff.2 (.inl ⟨silent, rfl⟩)]
      rfl
    | badId told parsed =>
      rw [readId_eq_error_iff.2 (.inr ⟨_, _, told, parsed, rfl⟩)]
      rfl
    | @noChunkList id identified lacks =>
      rw [readId_eq_ok_iff.2 identified]
      simp only [Except.bind, readChunk_eq_error_iff.2 (.inl ⟨lacks, rfl⟩)]
    | @noChunk id list identified first lacks =>
      rw [readId_eq_ok_iff.2 identified]
      simp only [Except.bind, readChunk_eq_error_iff.2 (.inr ⟨list, first, lacks, rfl⟩)]
    | @noPath id chunk identified has silent =>
      have found : ∃ several, readChunk ctx e id = .ok (chunk, several) :=
        readChunk_eq_ok_iff.2 has
      obtain ⟨several, hchunk⟩ := found
      rw [readId_eq_ok_iff.2 identified]
      simp only [Except.bind, hchunk]
      exact readPlace_eq_error_iff.2 ⟨silent, rfl⟩

theorem Identified.unique {a b : AssetId} (ha : Identified e a) (hb : Identified e b) : a = b := by
  have same : readId (.roomy "" "" none) e = .ok a := readId_eq_ok_iff.2 ha
  rw [readId_eq_ok_iff.2 hb] at same
  cases same
  rfl

/-- The identifier of an asset comes with its fault exactly when it could be read. -/
theorem Fault.asset_eq_some_iff {element : String} {lack : Lack} {asset : Option AssetId}
    (fault : Fault e element lack asset) (id : AssetId) : asset = some id ↔ Identified e id := by
  have known {found : AssetId} (h : Identified e found) : some found = some id ↔ Identified e id :=
    ⟨fun same => Option.some.inj same ▸ h, fun other => congrArg some (h.unique other)⟩
  have unknown {f : Error} (h : readId (.roomy "" "" none) e = .error f) :
      none = some id ↔ Identified e id := by
    refine ⟨nofun, fun identified => ?_⟩
    rw [readId_eq_ok_iff.2 identified] at h
    cases h
  cases fault with
  | noId silent => exact unknown (readId_eq_error_iff.2 (.inl ⟨silent, rfl⟩))
  | badId told parsed => exact unknown (readId_eq_error_iff.2 (.inr ⟨_, _, told, parsed, rfl⟩))
  | noChunkList identified => exact known identified
  | noChunk identified => exact known identified
  | noPath identified => exact known identified

/-! ## Lists of elements -/

/-- An element has what makes an asset. -/
def IsAsset (e : Element) : Prop := (∃ id, Identified e id) ∧ ∃ path, Placed e path

/-- The first of the elements that ought to be an asset and is none, and its fault. -/
def FirstFault (es : List Element) (e : Element) (element : String) (lack : Lack)
    (asset : Option AssetId) : Prop :=
  (∃ before after, es = before ++ e :: after ∧ e.isNamed "Asset" = true ∧
    ∀ other ∈ before, other.isNamed "Asset" = true → IsAsset other) ∧
  Fault e element lack asset

theorem exists_entry_iff (baseDir : String) : (∃ l, Entry baseDir e l) ↔ IsAsset e := by
  constructor
  · rintro ⟨l, identified, path, placed, -⟩
    exact ⟨⟨l.id, identified⟩, path, placed⟩
  · rintro ⟨⟨id, identified⟩, path, chunk, has, told⟩
    obtain ⟨l, hl⟩ := of?_resolve told.ne_empty baseDir id
    obtain ⟨rfl, uri⟩ := AssetLocator.of?_eq_ok_iff.1 hl
    exact ⟨l, identified, path, ⟨chunk, has, told⟩, uri⟩

theorem enter_of_room {r : Registry} (room : ctx.room r.size = true) (l : AssetLocator) :
    (enter ctx r l).result = .ok (r.push l) := by
  unfold enter
  rw [if_pos room]
  by_cases hlisted : r.contains l.id = true
  · rw [if_pos hlisted]
    rfl
  · rw [if_neg hlisted]
    rfl

theorem enter_of_no_room {r : Registry} (full : ctx.room r.size = false) (l : AssetLocator) :
    (enter ctx r l).result = .error (.full r.size) := by
  unfold enter
  rw [full, if_neg Bool.false_ne_true]
  by_cases hlisted : r.contains l.id = true
  · rw [if_pos hlisted]
    rfl
  · rw [if_neg hlisted]
    rfl

/-- A registry of so many entries can take so many more, one after the other. -/
def Context.HasRoom (ctx : Context) (size count : Nat) : Prop :=
  ∀ i < count, ctx.room (size + i) = true

theorem Context.hasRoom_of_room (room : ∀ n, ctx.room n = true) (size count : Nat) :
    ctx.HasRoom size count := fun _ _ => room _

theorem Context.hasRoom_succ_iff {size count : Nat} :
    ctx.HasRoom size (count + 1) ↔ ctx.room size = true ∧ ctx.HasRoom (size + 1) count := by
  constructor
  · intro h
    refine ⟨h 0 (by omega), fun i hi => ?_⟩
    have later := h (i + 1) (by omega)
    rwa [← Nat.add_assoc, Nat.add_right_comm] at later
  · intro h i hi
    cases i with
    | zero => exact h.1
    | succ i =>
      have later := h.2 i (by omega)
      rwa [Nat.add_right_comm, Nat.add_assoc] at later

/-- The elements among others that ought to be assets. -/
def assetsAmong (es : List Element) : List Element := es.filter (·.isNamed "Asset")

theorem assetsAmong_cons_of_named (named : e.isNamed "Asset" = true) (es : List Element) :
    assetsAmong (e :: es) = e :: assetsAmong es := List.filter_cons_of_pos named

theorem assetsAmong_cons_of_other (other : e.isNamed "Asset" = false) (es : List Element) :
    assetsAmong (e :: es) = assetsAmong es := List.filter_cons_of_neg (by simp [other])

/-- The reading of elements into a registry of so many entries comes to one of them: it ought to
be an asset, so many before it ought to be too and are, and there was room for these. -/
def Reaches (ctx : Context) (size : Nat) (es : List Element) (e : Element) (count : Nat) : Prop :=
  ∃ before after, es = before ++ e :: after ∧ e.isNamed "Asset" = true ∧
    (∀ other ∈ before, other.isNamed "Asset" = true → IsAsset other) ∧
    (assetsAmong before).length = count ∧ ctx.HasRoom size count

/-- What ends the reading of elements: the first that ought to be an asset and is none, or the
first for which there is no room. -/
inductive Stop (ctx : Context) (size : Nat) (es : List Element) : Error → Prop
  | fault {e : Element} {count : Nat} {element : String} {lack : Lack} {asset : Option AssetId} :
    Reaches ctx size es e count → Fault e element lack asset →
    Stop ctx size es (ctx.lacks element lack asset)
  | full {e : Element} {count : Nat} :
    Reaches ctx size es e count → IsAsset e → ctx.room (size + count) = false →
    Stop ctx size es (.full (size + count))

variable {r r' : Registry} {es : List Element}

theorem result_readAssets_skip (other : e.isNamed "Asset" = false) :
    (readAssets ctx r (e :: es)).result = (readAssets ctx r es).result := by
  rw [readAssets, if_neg (by simp [other])]
  rfl

theorem result_readAssets_entry (room : ctx.room r.size = true) (named : e.isNamed "Asset" = true)
    (entry : Entry ctx.baseDir e l) :
    (readAssets ctx r (e :: es)).result = (readAssets ctx (r.push l) es).result := by
  rw [readAssets, if_pos named, Attempt.bind_ok (result_readAsset_eq_ok_iff.2 entry)]
  simp only
  rw [Attempt.bind_ok (enter_of_room room l)]

theorem result_readAssets_full (full : ctx.room r.size = false) (named : e.isNamed "Asset" = true)
    (entry : Entry ctx.baseDir e l) :
    (readAssets ctx r (e :: es)).result = .error (.full r.size) := by
  rw [readAssets, if_pos named, Attempt.bind_ok (result_readAsset_eq_ok_iff.2 entry)]
  simp only
  rw [Attempt.bind_error (enter_of_no_room full l)]

theorem result_readAssets_fault (named : e.isNamed "Asset" = true)
    (fault : (readAsset ctx e).result = .error err) :
    (readAssets ctx r (e :: es)).result = .error err := by
  rw [readAssets, if_pos named, Attempt.bind_error fault]

/-- The assets among elements are entered one after the other, as long as there is room. -/
theorem result_readAssets_eq_ok_iff :
    (readAssets ctx r es).result = .ok r' ↔
      ∃ ls, Entries ctx.baseDir (assetsAmong es) ls ∧ ctx.HasRoom r.size ls.length ∧
        r' = ls.foldl Registry.push r := by
  induction es generalizing r with
  | nil =>
    constructor
    · intro h
      cases h
      exact ⟨[], .nil, nofun, rfl⟩
    · rintro ⟨_, ⟨⟩, -, rfl⟩
      rfl
  | cons e es ih =>
    cases named : e.isNamed "Asset" with
    | false => rw [result_readAssets_skip named, ih, assetsAmong_cons_of_other named]
    | true =>
      rw [assetsAmong_cons_of_named named]
      constructor
      · intro h
        cases hread : (readAsset ctx e).result with
        | error err =>
          rw [result_readAssets_fault named hread] at h
          cases h
        | ok l =>
          have entry := result_readAsset_eq_ok_iff.1 hread
          cases room : ctx.room r.size with
          | false =>
            rw [result_readAssets_full room named entry] at h
            cases h
          | true =>
            rw [result_readAssets_entry room named entry, ih, Registry.size_push] at h
            obtain ⟨ls, entries, more, rfl⟩ := h
            exact ⟨l :: ls, .cons entry entries, Context.hasRoom_succ_iff.2 ⟨room, more⟩, rfl⟩
      · rintro ⟨_, _ | ⟨entry, entries⟩, room, rfl⟩
        obtain ⟨room, more⟩ := Context.hasRoom_succ_iff.1 room
        rw [result_readAssets_entry room named entry, ih, Registry.size_push]
        exact ⟨_, entries, more, rfl⟩

/-- Elements that are assets, with room for them, or nothing to do with assets do not end the
reading. -/
theorem result_readAssets_append {before : List Element}
    (good : ∀ e ∈ before, e.isNamed "Asset" = true → IsAsset e)
    (room : ctx.HasRoom r.size (assetsAmong before).length) (rest : List Element) :
    ∃ r', r'.size = r.size + (assetsAmong before).length ∧
      (readAssets ctx r (before ++ rest)).result = (readAssets ctx r' rest).result := by
  induction before generalizing r with
  | nil => exact ⟨r, rfl, rfl⟩
  | cons e before ih =>
    have others : ∀ other ∈ before, other.isNamed "Asset" = true → IsAsset other :=
      fun other hother => good other (List.mem_cons_of_mem e hother)
    rw [List.cons_append]
    cases named : e.isNamed "Asset" with
    | false =>
      rw [assetsAmong_cons_of_other named] at room ⊢
      rw [result_readAssets_skip named]
      exact ih others room
    | true =>
      rw [assetsAmong_cons_of_named named, List.length_cons] at room ⊢
      obtain ⟨now, later⟩ := Context.hasRoom_succ_iff.1 room
      obtain ⟨l, entry⟩ :=
        (exists_entry_iff ctx.baseDir).2 (good e List.mem_cons_self named)
      rw [← Registry.size_push r l] at later
      obtain ⟨r', size, behind⟩ := ih others later
      rw [result_readAssets_entry now named entry]
      refine ⟨r', ?_, behind⟩
      rw [size, Registry.size_push]
      omega

theorem Reaches.here (named : e.isNamed "Asset" = true) (ctx : Context) (size : Nat)
    (es : List Element) : Reaches ctx size (e :: es) e 0 :=
  ⟨[], es, rfl, named, nofun, rfl, nofun⟩

theorem Reaches.cons_other {other : Element} {size count : Nat}
    (unnamed : other.isNamed "Asset" = false) (h : Reaches ctx size es e count) :
    Reaches ctx size (other :: es) e count := by
  obtain ⟨before, after, rfl, named, good, length, room⟩ := h
  refine ⟨other :: before, after, rfl, named, ?_, ?_, room⟩
  · exact List.forall_mem_cons.2 ⟨by simp [unnamed], good⟩
  · rw [assetsAmong_cons_of_other unnamed, length]

theorem Reaches.cons_asset {other : Element} {size count : Nat}
    (named' : other.isNamed "Asset" = true) (asset : IsAsset other) (now : ctx.room size = true)
    (h : Reaches ctx (size + 1) es e count) : Reaches ctx size (other :: es) e (count + 1) := by
  obtain ⟨before, after, rfl, named, good, length, room⟩ := h
  refine ⟨other :: before, after, rfl, named, ?_, ?_, Context.hasRoom_succ_iff.2 ⟨now, room⟩⟩
  · exact List.forall_mem_cons.2 ⟨fun _ => asset, good⟩
  · rw [assetsAmong_cons_of_named named', List.length_cons, length]

theorem Stop.cons_other {other : Element} {size : Nat} (unnamed : other.isNamed "Asset" = false)
    (h : Stop ctx size es err) : Stop ctx size (other :: es) err := by
  cases h with
  | fault reaches fault => exact .fault (reaches.cons_other unnamed) fault
  | full reaches asset full => exact .full (reaches.cons_other unnamed) asset full

theorem Stop.cons_asset {other : Element} {size : Nat} (named : other.isNamed "Asset" = true)
    (asset : IsAsset other) (now : ctx.room size = true) (h : Stop ctx (size + 1) es err) :
    Stop ctx size (other :: es) err := by
  cases h with
  | fault reaches fault => exact .fault (reaches.cons_asset named asset now) fault
  | @full e count reaches last full =>
    rw [Nat.add_assoc, Nat.add_comm 1 count] at full ⊢
    exact .full (reaches.cons_asset named asset now) last full

/-- The error of a list of elements is that of the one that ends the reading. -/
theorem result_readAssets_eq_error_iff :
    (readAssets ctx r es).result = .error err ↔ Stop ctx r.size es err := by
  constructor
  · intro h
    induction es generalizing r with
    | nil => cases h
    | cons e es ih =>
      cases named : e.isNamed "Asset" with
      | false =>
        rw [result_readAssets_skip named] at h
        exact (ih h).cons_other named
      | true =>
        cases hread : (readAsset ctx e).result with
        | error f =>
          rw [result_readAssets_fault named hread] at h
          cases h
          obtain ⟨element, lack, asset, fault, rfl⟩ := result_readAsset_eq_error_iff.1 hread
          exact .fault (.here named ctx r.size es) fault
        | ok l =>
          have entry := result_readAsset_eq_ok_iff.1 hread
          have asset := (exists_entry_iff ctx.baseDir).1 ⟨l, entry⟩
          cases room : ctx.room r.size with
          | false =>
            rw [result_readAssets_full room named entry] at h
            cases h
            exact .full (.here named ctx r.size es) asset room
          | true =>
            rw [result_readAssets_entry room named entry] at h
            have later := ih h
            rw [Registry.size_push] at later
            exact later.cons_asset named asset room
  · intro h
    -- Reading gets to the stop with some registry, and only its size matters.
    cases h with
    | fault reaches fault =>
      obtain ⟨before, after, rfl, named, good, rfl, room⟩ := reaches
      obtain ⟨r', -, behind⟩ := result_readAssets_append good room (_ :: after)
      rw [behind]
      exact result_readAssets_fault named
        (result_readAsset_eq_error_iff.2 ⟨_, _, _, fault, rfl⟩)
    | full reaches asset full =>
      obtain ⟨before, after, rfl, named, good, rfl, room⟩ := reaches
      obtain ⟨r', size, behind⟩ := result_readAssets_append good room (_ :: after)
      obtain ⟨l, entry⟩ := (exists_entry_iff ctx.baseDir).2 asset
      rw [← size] at full ⊢
      rw [behind]
      exact result_readAssets_full full named entry

/-- With room for every asset, only a fault ends the reading. -/
theorem stop_iff_of_room (room : ∀ n, ctx.room n = true) {size : Nat} :
    Stop ctx size es err ↔
      ∃ e element lack asset, FirstFault es e element lack asset ∧
        ctx.lacks element lack asset = err := by
  constructor
  · intro h
    cases h with
    | fault reaches fault =>
      obtain ⟨before, after, rfl, named, good, -⟩ := reaches
      exact ⟨_, _, _, _, ⟨⟨before, after, rfl, named, good⟩, fault⟩, rfl⟩
    | full _ _ full =>
      rw [room] at full
      cases full
  · rintro ⟨e, element, lack, asset, ⟨⟨before, after, rfl, named, good⟩, fault⟩, rfl⟩
    exact .fault ⟨before, after, rfl, named, good, rfl, Context.hasRoom_of_room room _ _⟩ fault

/-! ## Asset maps -/

/-- The list of assets of a document: the first one under a root of the right name. -/
def ListOf (root : Option Element) (list : Element) : Prop :=
  ∃ e, root = some e ∧ e.isNamed "AssetMap" = true ∧ e.First "AssetList" list

/-- Why a document has no list of assets. -/
inductive NoList : Option Element → String → Lack → Prop
  | noRoot : NoList none "AssetMap" .noRoot
  | otherRoot {e : Element} :
    e.isNamed "AssetMap" = false → NoList (some e) "AssetMap" (.otherRoot e.name)
  | noList {e : Element} :
    e.isNamed "AssetMap" = true → e.Lacks "AssetList" → NoList (some e) "AssetList" .missing

variable {root : Option Element} {list : Element}

theorem assetList_eq_ok_iff : assetList ctx root = .ok list ↔ ListOf root list := by
  cases root with
  | none => simp [assetList, ListOf]
  | some e =>
    simp only [assetList, ListOf, ← Element.child?_eq_some_iff]
    cases named : e.isNamed "AssetMap" with
    | false => simp [named]
    | true => cases hlist : e.child? "AssetList" <;> simp [named, hlist]

theorem assetList_eq_error_iff :
    assetList ctx root = .error err ↔
      ∃ element lack, NoList root element lack ∧ ctx.lacks element lack none = err := by
  constructor
  · intro h
    cases root with
    | none =>
      cases h
      exact ⟨_, _, .noRoot, rfl⟩
    | some e =>
      simp only [assetList] at h
      split at h
      · next named =>
        split at h
        · next hlist =>
          cases h
          exact ⟨_, _, .noList named (Element.child?_eq_none_iff.1 hlist), rfl⟩
        · cases h
      · next named =>
        cases h
        exact ⟨_, _, .otherRoot (Bool.not_eq_true _ ▸ named), rfl⟩
  · rintro ⟨element, lack, missing, rfl⟩
    cases missing with
    | noRoot => rfl
    | otherRoot named => simp [assetList, named]
    | noList named lacks => simp [assetList, named, Element.child?_eq_none_iff.2 lacks]

/-- Why there is no registry: there is no list of assets, or the reading of it is ended. -/
inductive Refusal (ctx : Context) (root : Option Element) : Error → Prop
  | noList {element : String} {lack : Lack} :
    NoList root element lack → Refusal ctx root (ctx.lacks element lack none)
  | stop {list : Element} {err : Error} :
    ListOf root list → Stop ctx 0 list.children err → Refusal ctx root err

theorem result_ofRoot_eq_ok_iff :
    (ofRoot ctx root).result = .ok r ↔
      ∃ list ls, ListOf root list ∧ Entries ctx.baseDir (list.childrenNamed "Asset") ls ∧
        ctx.HasRoom 0 ls.length ∧ r = .ofList ls := by
  rw [ofRoot, Attempt.result_bind_eq_ok_iff]
  constructor
  · rintro ⟨list, hlist, hread⟩
    obtain ⟨ls, entries, room, rfl⟩ := result_readAssets_eq_ok_iff.1 hread
    exact ⟨list, ls, assetList_eq_ok_iff.1 hlist, entries, room, rfl⟩
  · rintro ⟨list, ls, hlist, entries, room, rfl⟩
    exact ⟨list, assetList_eq_ok_iff.2 hlist,
      result_readAssets_eq_ok_iff.2 ⟨ls, entries, room, rfl⟩⟩

theorem result_ofRoot_eq_ok_iff_of_room (room : ∀ n, ctx.room n = true) :
    (ofRoot ctx root).result = .ok r ↔
      ∃ list ls, ListOf root list ∧
        Entries ctx.baseDir (list.childrenNamed "Asset") ls ∧ r = .ofList ls := by
  simp only [result_ofRoot_eq_ok_iff, Context.hasRoom_of_room room, true_and]

theorem result_ofRoot_eq_error_iff :
    (ofRoot ctx root).result = .error err ↔ Refusal ctx root err := by
  rw [ofRoot, Attempt.result_bind_eq_error_iff]
  constructor
  · rintro (hlist | ⟨list, hlist, hread⟩)
    · obtain ⟨element, lack, missing, rfl⟩ := assetList_eq_error_iff.1 hlist
      exact .noList missing
    · exact .stop (assetList_eq_ok_iff.1 hlist) (result_readAssets_eq_error_iff.1 hread)
  · intro h
    cases h with
    | noList missing => exact .inl (assetList_eq_error_iff.2 ⟨_, _, missing, rfl⟩)
    | stop hlist stop =>
      exact .inr ⟨_, assetList_eq_ok_iff.2 hlist, result_readAssets_eq_error_iff.2 stop⟩

/-- With room for every asset, only the structure of the document can be refused. -/
theorem refusal_iff_of_room (room : ∀ n, ctx.room n = true) :
    Refusal ctx root err ↔
      ∃ element lack asset, ctx.lacks element lack asset = err ∧
        ((NoList root element lack ∧ asset = none) ∨
          ∃ list e, ListOf root list ∧ FirstFault list.children e element lack asset) := by
  constructor
  · intro h
    cases h with
    | noList missing => exact ⟨_, _, none, rfl, .inl ⟨missing, rfl⟩⟩
    | stop hlist stop =>
      obtain ⟨e, element, lack, asset, first, same⟩ := (stop_iff_of_room room).1 stop
      exact ⟨element, lack, asset, same, .inr ⟨_, e, hlist, first⟩⟩
  · rintro ⟨element, lack, asset, rfl, (⟨missing, rfl⟩ | ⟨list, e, hlist, first⟩)⟩
    · exact .noList missing
    · exact .stop hlist ((stop_iff_of_room room).2 ⟨e, element, lack, asset, first, rfl⟩)

theorem exists_entries_iff {baseDir : String} :
    (∃ ls, Entries baseDir es ls) ↔ ∀ e ∈ es, IsAsset e := by
  induction es with
  | nil => exact ⟨fun _ => nofun, fun _ => ⟨[], .nil⟩⟩
  | cons e es ih =>
    rw [List.forall_mem_cons, ← ih, ← exists_entry_iff baseDir]
    constructor
    · rintro ⟨_, _ | ⟨entry, entries⟩⟩
      exact ⟨⟨_, entry⟩, _, entries⟩
    · rintro ⟨⟨l, entry⟩, ls, entries⟩
      exact ⟨l :: ls, .cons entry entries⟩

/-- An asset map is read exactly if its root has the right name and a list of assets in which
everything named as an asset is one.  Then the registry has the entries of the assets in
order.  Otherwise the error is that there is no list of assets, or it is the fault of the
first that is no asset, with its identifier if that could be read; and it is never that a
path leads nowhere, since every path that says something leads somewhere. -/
theorem ofRoot_by_structure (document baseDir : String) (composition : Option CompositionId)
    (root : Option Element) :
    let outcome := (ofRoot (.roomy document baseDir composition) root).result
    ((∃ r, outcome = .ok r) ↔
      ∃ list, ListOf root list ∧ ∀ e ∈ list.children, e.isNamed "Asset" = true → IsAsset e) ∧
    (∀ r, outcome = .ok r ↔
      ∃ list ls, ListOf root list ∧
        Entries baseDir (list.childrenNamed "Asset") ls ∧ r = .ofList ls) ∧
    (∀ err, outcome = .error err ↔
      ∃ element lack asset, err = .schema ⟨document, element, lack, asset, composition⟩ ∧
        ((NoList root element lack ∧ asset = none) ∨
          ∃ list e, ListOf root list ∧ FirstFault list.children e element lack asset ∧
            ∀ id, asset = some id ↔ Identified e id)) ∧
    (∀ e path id, Placed e path →
      ∃ l, AssetLocator.of? id (Location.resolve baseDir path) = .ok l) := by
  intro outcome
  have room (n : Nat) : (Context.roomy document baseDir composition).room n = true := rfl
  have read (r : Registry) : outcome = .ok r ↔
      ∃ list ls, ListOf root list ∧
        Entries baseDir (list.childrenNamed "Asset") ls ∧ r = .ofList ls :=
    result_ofRoot_eq_ok_iff_of_room room
  refine ⟨?_, read, ?_, ?_⟩
  · have named (list : Element) :
        (∃ ls, Entries baseDir (list.childrenNamed "Asset") ls) ↔
        ∀ e ∈ list.children, e.isNamed "Asset" = true → IsAsset e := by
      rw [exists_entries_iff, Element.childrenNamed]
      simp only [List.mem_filter, and_imp]
    constructor
    · rintro ⟨r, h⟩
      obtain ⟨list, ls, hlist, entries, -⟩ := (read r).1 h
      exact ⟨list, hlist, (named list).1 ⟨ls, entries⟩⟩
    · rintro ⟨list, hlist, assets⟩
      obtain ⟨ls, entries⟩ := (named list).2 assets
      exact ⟨.ofList ls, (read _).2 ⟨list, ls, hlist, entries, rfl⟩⟩
  · intro err
    refine (result_ofRoot_eq_error_iff.trans (refusal_iff_of_room room)).trans ?_
    constructor
    · rintro ⟨element, lack, asset, rfl, (missing | ⟨list, e, hlist, first⟩)⟩
      · exact ⟨element, lack, asset, rfl, .inl missing⟩
      · exact ⟨element, lack, asset, rfl,
          .inr ⟨list, e, hlist, first, first.2.asset_eq_some_iff⟩⟩
    · rintro ⟨element, lack, asset, rfl, (missing | ⟨list, e, hlist, first, -⟩)⟩
      · exact ⟨element, lack, asset, rfl, .inl missing⟩
      · exact ⟨element, lack, asset, rfl, .inr ⟨list, e, hlist, first⟩⟩
  · rintro e path id ⟨chunk, -, told⟩
    exact of?_resolve told.ne_empty baseDir id

end MasterPackage.AssetMap
