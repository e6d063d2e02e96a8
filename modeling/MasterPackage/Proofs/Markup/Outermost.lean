import MasterPackage.Markup.Element

/-!
# Outermost elements

The elements of a tree stand in document order, each of them inside of others.  The outermost
elements of a name are those that have the name and are not inside of another one that has it.

The places of a tree are those that a walk through it visits, with the elements around each
instead of their number (`Element.walk_eq_places`).  Looking for the outermost elements, one need
not look into an element that has the name.
-/

namespace MasterPackage.Markup.Element

mutual

/-- An element and all below it in document order, each with the elements that it is inside of,
innermost first. -/
def places (above : List Element) : Element → List (List Element × Element)
  | e@⟨_, _, children⟩ => (above, e) :: placesAll (e :: above) children

/-- The elements of a list and all below them, each with the elements that it is inside of. -/
def placesAll (above : List Element) : List Element → List (List Element × Element)
  | [] => []
  | e :: es => places above e ++ placesAll above es

end

/-- One of the elements has the name. -/
def Among (name : String) (es : List Element) : Prop := ∃ e ∈ es, e.isNamed name = true

/-- Of some places, the elements of a name that are not inside of another of that name. -/
def outermostAmong (name : String) (found : List (List Element × Element)) : List Element :=
  (found.filter fun (above, e) => e.isNamed name && above.all fun f => !f.isNamed name).map Prod.snd

/-- The elements of a name that are not inside of another of that name, in document order. -/
def outermost (e : Element) (name : String) : List Element := outermostAmong name (e.places [])

variable {name : String} {above : List Element} {e : Element}

/-! ## Places and walks -/

mutual

/-- A walk through a tree visits its places in order, each as deep as the elements are many that it
is inside of. -/
theorem walk_eq_places (above : List Element) :
    (e : Element) → e.walk above.length = (e.places above).map fun (above, f) => (above.length, f)
  | ⟨_, _, children⟩ => by
    rw [walk, places, List.map_cons, ← walkAll_eq_placesAll (_ :: above) children]
    rfl

theorem walkAll_eq_placesAll (above : List Element) :
    (es : List Element) →
      walkAll above.length es = (placesAll above es).map fun (above, f) => (above.length, f)
  | [] => by rw [walkAll, placesAll, List.map_nil]
  | e :: es => by
    rw [walkAll, placesAll, List.map_append, ← walk_eq_places above e,
      ← walkAll_eq_placesAll above es]

end

mutual

/-- What is below an element is inside of all that the element is inside of. -/
theorem suffix_of_mem_places {place : List Element × Element} (above : List Element) :
    (e : Element) → place ∈ e.places above → above <:+ place.1
  | ⟨name, text, children⟩, h => by
    rw [places, List.mem_cons] at h
    rcases h with rfl | below
    · exact List.suffix_refl above
    · exact (List.suffix_cons _ above).trans (suffix_of_mem_placesAll _ children below)

theorem suffix_of_mem_placesAll {place : List Element × Element} (above : List Element) :
    (es : List Element) → place ∈ placesAll above es → above <:+ place.1
  | [], h => by
    rw [placesAll] at h
    cases h
  | e :: es, h => by
    rw [placesAll, List.mem_append] at h
    rcases h with first | others
    · exact suffix_of_mem_places above e first
    · exact suffix_of_mem_placesAll above es others

end

/-! ## Outermost elements -/

theorem outermostAmong_append (name : String) (found more : List (List Element × Element)) :
    outermostAmong name (found ++ more) =
      outermostAmong name found ++ outermostAmong name more := by
  rw [outermostAmong, List.filter_append, List.map_append]
  rfl

/-- Inside of an element that has the name, none is outermost. -/
theorem outermostAmong_placesAll_of_among (among : Among name above) (es : List Element) :
    outermostAmong name (placesAll above es) = [] := by
  obtain ⟨f, hf, named⟩ := among
  rw [outermostAmong, List.map_eq_nil_iff, List.filter_eq_nil_iff]
  intro place hplace
  have inside : f ∈ place.1 := (suffix_of_mem_placesAll above es hplace).subset hf
  simp only [Bool.and_eq_true, List.all_eq_true, Bool.not_eq_true', not_and]
  intro _ free
  rw [free f inside] at named
  cases named

/-- An element that has the name is outermost, and no other below it. -/
theorem outermostAmong_places_of_named (free : ¬Among name above) (named : e.isNamed name = true) :
    outermostAmong name (e.places above) = [e] := by
  obtain ⟨tag, text, children⟩ := e
  have outside : (above.all fun f => !f.isNamed name) = true := by
    rw [List.all_eq_true]
    exact fun f hf => by simpa using fun hnamed => free ⟨f, hf, hnamed⟩
  have below : outermostAmong name (placesAll (⟨tag, text, children⟩ :: above) children) = [] :=
    outermostAmong_placesAll_of_among ⟨_, List.mem_cons_self, named⟩ children
  rw [places, outermostAmong, List.filter_cons_of_pos (by simp [named, outside]), List.map_cons]
  exact congrArg (_ :: ·) below

/-- An element with another name leaves it to those below. -/
theorem outermostAmong_places_of_other (other : e.isNamed name = false) :
    outermostAmong name (e.places above) =
      outermostAmong name (placesAll (e :: above) e.children) := by
  obtain ⟨tag, text, children⟩ := e
  rw [places, outermostAmong, List.filter_cons_of_neg (by simp [other])]
  rfl

theorem not_among_cons (free : ¬Among name above) (other : e.isNamed name = false) :
    ¬Among name (e :: above) := by
  intro among
  obtain ⟨f, hf, named⟩ := among
  rcases List.mem_cons.1 hf with rfl | hf
  · rw [other] at named
    cases named
  · exact free ⟨f, hf, named⟩

end MasterPackage.Markup.Element
