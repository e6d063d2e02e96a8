import Mathlib.Data.List.Forall2
import Mathlib.Logic.Relation
import MasterPackage.Proofs.AssetMap.Structure
import MasterPackage.Proofs.AssetMap.Written

/-!
# Edits of asset maps

Much can be done to the tree of an asset map that the reading of it does not notice: letters can
change their case in names, text can be written where none is read, elements of other names can be
put anywhere, and where only the first element of a name counts, more of them can follow.  Edits of
these kinds, at any depth and in any number, leave what is read as it is.

* `Edit`: one such edit.
* `Edit.child?`, `Edit.childrenNamed`: what is looked up in an edited element is edited itself,
  and there is as much of it as before.
* `Edit.result_readAsset`, `Edit.result_readAssets`: an asset, and a list of them.
* `result_ofRoot_of_edits`: a whole map, after any number of edits.
-/

namespace MasterPackage.AssetMap

open Markup (Element)

/-- The names that are looked up below the root. -/
def partNames : List String := ["AssetList", "Asset", "Id", "ChunkList", "Chunk", "Path"]

/-- The names of which only the first child counts. -/
def singleNames : List String := ["AssetList", "Id", "ChunkList", "Chunk", "Path"]

/-- The names of the elements whose text is read. -/
def textNames : List String := ["Id", "Path"]

/-- One edit: other letter case in a name, other text where none is read, one more child of a name
that is not looked up, one more child of a name of which there is one before, or an edit of a
child. -/
inductive Edit : Element → Element → Prop
  | recase {name name' text : String} {children : List Element} :
    Text.sameFolded name.toList name'.toList = true →
    Edit ⟨name, text, children⟩ ⟨name', text, children⟩
  | retext {name text text' : String} {children : List Element} :
    (∀ read ∈ textNames, Markup.sameTag name read = false) →
    Edit ⟨name, text, children⟩ ⟨name, text', children⟩
  | insert {name text : String} {before after : List Element} {child : Element} :
    (∀ part ∈ partNames, child.isNamed part = false) →
    Edit ⟨name, text, before ++ after⟩ ⟨name, text, before ++ child :: after⟩
  | further {name text single : String} {before after : List Element} {first child : Element} :
    single ∈ singleNames → first ∈ before → first.isNamed single = true →
    child.isNamed single = true →
    Edit ⟨name, text, before ++ after⟩ ⟨name, text, before ++ child :: after⟩
  | inside {name text : String} {before after : List Element} {child child' : Element} :
    Edit child child' →
    Edit ⟨name, text, before ++ child :: after⟩ ⟨name, text, before ++ child' :: after⟩

variable {e e' child : Element} {before after : List Element} {name : String}

theorem Edit.refl (e : Element) : Edit e e := by
  obtain ⟨name, text, children⟩ := e
  exact .recase (Text.sameFolded_refl name.toList)

theorem Edit.isNamed (h : Edit e e') (name : String) : e'.isNamed name = e.isNamed name := by
  cases h with
  | recase same => exact (Element.isNamed_of_sameFolded same).symm
  | retext => rfl
  | insert => rfl
  | further => rfl
  | inside => rfl

/-- Where text is read, an edit leaves it alone. -/
theorem Edit.trimmedText? (h : Edit e e') (read : name ∈ textNames)
    (named : e.isNamed name = true) : e'.trimmedText? = e.trimmedText? := by
  cases h with
  | recase => rfl
  | retext unread =>
    rw [Element.isNamed, unread name read] at named
    cases named
  | insert => rfl
  | further => rfl
  | inside => rfl

/-! ## What is looked up -/

theorem rel_refl (found : Option Element) : Option.Rel Edit found found := by
  cases found with
  | none => exact .none
  | some e => exact .some (.refl e)

theorem find?_insert (other : child.isNamed name = false) :
    (before ++ child :: after).find? (·.isNamed name) =
      (before ++ after).find? (·.isNamed name) := by
  rw [List.find?_append, List.find?_append, List.find?_cons_of_neg (by simp [other])]

theorem find?_of_before {first : Element} (there : first ∈ before)
    (named : first.isNamed name = true) (rest : List Element) :
    (before ++ rest).find? (·.isNamed name) = before.find? (·.isNamed name) := by
  have found : (before.find? (·.isNamed name)).isSome = true :=
    List.find?_isSome.2 ⟨first, there, named⟩
  obtain ⟨e, he⟩ := Option.isSome_iff_exists.1 found
  rw [List.find?_append, he]
  rfl

/-- Where the first child of a name counts, there is one after an edit exactly if there was one
before, and it is the same one, or what the edit made of it. -/
theorem Edit.child? (h : Edit e e') (single : name ∈ singleNames) :
    Option.Rel Edit (e.child? name) (e'.child? name) := by
  cases h with
  | recase => exact rel_refl _
  | retext => exact rel_refl _
  | insert others =>
    have part : name ∈ partNames := by
      have all : ∀ n ∈ singleNames, n ∈ partNames := by decide
      exact all name single
    simp only [Element.child?, find?_insert (others name part)]
    exact rel_refl _
  | @further _ _ other before after first child _ there firstNamed childNamed =>
    have alike : child.isNamed name = first.isNamed name := by
      rw [Element.isNamed_of_isNamed childNamed, Element.isNamed_of_isNamed firstNamed]
    simp only [Element.child?]
    cases named : child.isNamed name with
    | false =>
      rw [find?_insert named]
      exact rel_refl _
    | true =>
      rw [alike] at named
      rw [find?_of_before there named, find?_of_before there named]
      exact rel_refl _
  | @inside _ _ before after child child' edit =>
    simp only [Element.child?, List.find?_append]
    cases before.find? (·.isNamed name) with
    | some found => exact .some (.refl found)
    | none =>
      simp only [Option.none_or, List.find?_cons, edit.isNamed name]
      cases child.isNamed name with
      | true => exact .some edit
      | false => exact rel_refl _

theorem forall₂_refl (es : List Element) : List.Forall₂ Edit es es :=
  List.forall₂_same.2 fun e _ => .refl e

/-- There are as many assets after an edit as before it, and each is the same as before, or what
the edit made of it. -/
theorem Edit.childrenNamed (h : Edit e e') :
    List.Forall₂ Edit (e.childrenNamed "Asset") (e'.childrenNamed "Asset") := by
  have passed {before after : List Element} {child : Element}
      (other : child.isNamed "Asset" = false) :
      (before ++ child :: after).filter (·.isNamed "Asset") =
        (before ++ after).filter (·.isNamed "Asset") := by
    rw [List.filter_append, List.filter_append, List.filter_cons_of_neg (by simp [other])]
  cases h with
  | recase => exact forall₂_refl _
  | retext => exact forall₂_refl _
  | insert others =>
    simp only [Element.childrenNamed, passed (others "Asset" (by decide))]
    exact forall₂_refl _
  | @further _ _ single _ _ _ child isSingle _ _ childNamed =>
    have other : child.isNamed "Asset" = false := by
      have none : ∀ n ∈ singleNames, Markup.sameTag n "Asset" = false := by decide
      rw [Element.isNamed_of_isNamed childNamed, none single isSingle]
    simp only [Element.childrenNamed, passed other]
    exact forall₂_refl _
  | @inside _ _ before after child child' edit =>
    simp only [Element.childrenNamed, List.filter_append, List.filter_cons, edit.isNamed "Asset"]
    refine List.rel_append (forall₂_refl _) ?_
    split
    · exact .cons edit (forall₂_refl _)
    · exact forall₂_refl _

theorem Edit.textOf? (h : Edit e e') (read : name ∈ textNames) :
    e'.textOf? name = e.textOf? name := by
  have single : name ∈ singleNames := by
    have all : ∀ n ∈ textNames, n ∈ singleNames := by decide
    exact all name read
  have found := h.child? single
  have named : ∀ child, e.child? name = some child → child.isNamed name = true := by
    intro child hchild
    obtain ⟨-, -, -, named, -⟩ := Element.child?_eq_some_iff.1 hchild
    exact named
  rw [Element.textOf?, Element.textOf?]
  generalize e.child? name = here at found named
  generalize e'.child? name = there at found
  cases found with
  | none => rfl
  | some edit => exact edit.trimmedText? read (named _ rfl)

/-! ## What is read -/

variable {list list' : Element} {ctx : Context} {id : AssetId}

theorem Edit.readId (h : Edit e e') (ctx : Context) :
    AssetMap.readId ctx e' = AssetMap.readId ctx e := by
  rw [AssetMap.readId, AssetMap.readId, h.textOf? (by decide)]

theorem Edit.readPlace (h : Edit e e') (ctx : Context) (id : AssetId) :
    AssetMap.readPlace ctx e' id = AssetMap.readPlace ctx e id := by
  rw [AssetMap.readPlace, AssetMap.readPlace, h.textOf? (by decide)]

/-- The chunk that is read may have been edited, and others may have come after it, but its place
is the same. -/
theorem Edit.readChunk (h : Edit e e') (ctx : Context) (id : AssetId) :
    ((AssetMap.readChunk ctx e' id).bind fun found => AssetMap.readPlace ctx found.1 id) =
      (AssetMap.readChunk ctx e id).bind fun found => AssetMap.readPlace ctx found.1 id := by
  rw [AssetMap.readChunk, AssetMap.readChunk]
  have isSingle : "ChunkList" ∈ singleNames ∧ "Chunk" ∈ singleNames := by decide
  have lists := h.child? isSingle.1
  generalize e.child? "ChunkList" = here at lists
  generalize e'.child? "ChunkList" = there at lists
  cases lists with
  | none => rfl
  | @some list list' edit =>
    have chunks := edit.child? isSingle.2
    rw [Element.child?_eq_head?, Element.child?_eq_head?] at chunks
    dsimp only
    generalize list.childrenNamed "Chunk" = here at chunks
    generalize list'.childrenNamed "Chunk" = there at chunks
    cases here with
    | nil =>
      cases there with
      | nil => rfl
      | cons => cases chunks
    | cons =>
      cases there with
      | nil => cases chunks
      | cons =>
        cases chunks with
        | some edit => exact edit.readPlace ctx id

theorem Edit.result_readAsset (h : Edit e e') (ctx : Context) :
    (readAsset ctx e').result = (readAsset ctx e).result := by
  simp only [AssetMap.result_readAsset, h.readId ctx, h.readChunk ctx]

/-- An asset comes first, and then the others, if there is room for it. -/
theorem result_readAssets_named (named : e.isNamed "Asset" = true) (ctx : Context) (r : Registry)
    (es : List Element) :
    (readAssets ctx r (e :: es)).result =
      (readAsset ctx e).result.bind fun l =>
        if ctx.room r.size then (readAssets ctx (r.push l) es).result
        else .error (.full r.size) := by
  cases hread : (readAsset ctx e).result with
  | error err => exact result_readAssets_fault named hread
  | ok l =>
    have entry := result_readAsset_eq_ok_iff.1 hread
    cases room : ctx.room r.size with
    | false =>
      rw [result_readAssets_full room named entry]
      rfl
    | true =>
      rw [result_readAssets_entry room named entry]
      rfl

/-- Only the assets among elements matter. -/
theorem result_readAssets_assetsAmong (ctx : Context) (r : Registry) (es : List Element) :
    (readAssets ctx r (assetsAmong es)).result = (readAssets ctx r es).result := by
  induction es generalizing r with
  | nil => rfl
  | cons e es ih =>
    cases named : e.isNamed "Asset" with
    | false => rw [assetsAmong_cons_of_other named, result_readAssets_skip named, ih]
    | true => simp only [assetsAmong_cons_of_named named, result_readAssets_named named, ih]

theorem result_readAssets_of_forall₂ {assets assets' : List Element}
    (edits : List.Forall₂ Edit assets assets')
    (named : ∀ e ∈ assets, e.isNamed "Asset" = true) (ctx : Context) (r : Registry) :
    (readAssets ctx r assets').result = (readAssets ctx r assets).result := by
  induction edits generalizing r with
  | nil => rfl
  | @cons e e' assets assets' edit edits ih =>
    obtain ⟨now, later⟩ := List.forall_mem_cons.1 named
    have now' : e'.isNamed "Asset" = true := (edit.isNamed "Asset").trans now
    simp only [result_readAssets_named now, result_readAssets_named now', edit.result_readAsset ctx,
      ih later]

theorem Edit.result_readAssets (h : Edit list list') (ctx : Context) (r : Registry) :
    (readAssets ctx r list'.children).result = (readAssets ctx r list.children).result := by
  rw [← result_readAssets_assetsAmong ctx r list'.children,
    ← result_readAssets_assetsAmong ctx r list.children]
  exact result_readAssets_of_forall₂ h.childrenNamed (fun e he => (List.mem_filter.1 he).2) ctx r

/-! ## Whole maps -/

theorem result_ofRoot_of_other (other : e.isNamed "AssetMap" = false) (ctx : Context) :
    (ofRoot ctx (some e)).result =
      .error (ctx.lacks "AssetMap" (.otherRoot e.name) none) :=
  result_ofRoot_eq_error_iff.2 (.noList (.otherRoot other))

/-- An edit of an asset map does not change what is read. -/
theorem Edit.result_ofRoot (h : Edit e e') (named : e.isNamed "AssetMap" = true) (ctx : Context) :
    (ofRoot ctx (some e')).result = (ofRoot ctx (some e)).result := by
  have named' : e'.isNamed "AssetMap" = true := (h.isNamed "AssetMap").trans named
  have isSingle : "AssetList" ∈ singleNames := by decide
  have lists := h.child? isSingle
  rw [ofRoot, ofRoot, assetList, assetList]
  simp only [named, named', if_true]
  generalize e.child? "AssetList" = here at lists
  generalize e'.child? "AssetList" = there at lists
  cases lists with
  | none => rfl
  | some edit => exact edit.result_readAssets ctx .empty

theorem isNamed_of_edits (edits : Relation.ReflTransGen Edit e e') (name : String) :
    e'.isNamed name = e.isNamed name := by
  induction edits with
  | refl => rfl
  | tail _ edit ih => rw [edit.isNamed name, ih]

/-- However often an asset map is edited, at any depth, the same is read of it: the same registry,
or the same error.  A root of another name stays one, and the error then tells its name as it is
after the edits, which can differ in letter case only. -/
theorem result_ofRoot_of_edits (edits : Relation.ReflTransGen Edit e e') (ctx : Context) :
    (e.isNamed "AssetMap" = true →
      (ofRoot ctx (some e')).result = (ofRoot ctx (some e)).result) ∧
    (e.isNamed "AssetMap" = false →
      (ofRoot ctx (some e)).result =
          .error (ctx.lacks "AssetMap" (.otherRoot e.name) none) ∧
        (ofRoot ctx (some e')).result =
          .error (ctx.lacks "AssetMap" (.otherRoot e'.name) none) ∧
        Text.sameFolded e'.name.toList e.name.toList = true) := by
  constructor
  · intro named
    induction edits with
    | refl => rfl
    | @tail e₁ e₂ earlier edit ih =>
      have named₁ : e₁.isNamed "AssetMap" = true :=
        (isNamed_of_edits earlier "AssetMap").trans named
      rw [edit.result_ofRoot named₁ ctx, ih]
  · intro other
    have other' : e'.isNamed "AssetMap" = false := (isNamed_of_edits edits "AssetMap").trans other
    have folded : e'.isNamed e.name = true := by
      rw [isNamed_of_edits edits e.name, Element.isNamed_self]
    exact ⟨result_ofRoot_of_other other ctx, result_ofRoot_of_other other' ctx, folded⟩

namespace Sample

def sheet : Sheet := ⟨"", "", [row]⟩

/-- The asset map in other letters, with a note before the asset and one more list. -/
def edited : Element :=
  ⟨"ASSETMAP", "",
    [⟨"AssetList", "", [.empty "Note", row.element]⟩, ⟨"assetList", "none of this", [row.element]⟩]⟩

theorem edits : Relation.ReflTransGen Edit sheet.element edited := by
  have recased : Edit sheet.element ⟨"ASSETMAP", "", sheet.element.children⟩ := .recase (by decide)
  have noted : Edit ⟨"ASSETMAP", "", sheet.element.children⟩
      ⟨"ASSETMAP", "", [⟨"AssetList", "", [.empty "Note", row.element]⟩]⟩ :=
    @Edit.inside _ _ [] [] _ _ (@Edit.insert _ _ [] [row.element] _ (by decide))
  have more : Edit ⟨"ASSETMAP", "", [⟨"AssetList", "", [.empty "Note", row.element]⟩]⟩ edited :=
    @Edit.further _ _ "AssetList" [⟨"AssetList", "", [.empty "Note", row.element]⟩] [] _ _
      (by decide) (List.mem_singleton_self _) (by decide) (by decide)
  exact ((Relation.ReflTransGen.single recased).tail noted).tail more

end Sample

/-- The one asset is read before and after the edits. -/
theorem result_ofRoot_edited :
    Relation.ReflTransGen Edit Sample.sheet.element Sample.edited ∧
      (ofRoot (.roomy "ASSETMAP.xml" "" none) (some Sample.edited)).result =
        .ok (.ofList [Sample.row.locator ""]) := by
  have named : Sample.sheet.element.isNamed "AssetMap" = true := by decide
  have same := (result_ofRoot_of_edits Sample.edits (.roomy "ASSETMAP.xml" "" none)).1 named
  exact ⟨Sample.edits, same.trans (ofRoot_element fun _ _ => rfl)⟩

end MasterPackage.AssetMap
