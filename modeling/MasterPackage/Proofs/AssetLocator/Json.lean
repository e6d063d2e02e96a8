import MasterPackage.AssetLocator.Json
import MasterPackage.Proofs.Json.Skipping
import MasterPackage.Proofs.Uuid.Grammar

/-!
# Locators and their JSON texts

Which texts are locators in JSON is told by the grammar (`Form`): an object with one member
for the identifier and one for the location, in any order and among others, or a list of the
two.  A text of this form is read as what the identifier and the location make, which may be
nothing, and no other text is read.

* `readMember_of_entry`, `exists_entry_of_readMember`: one member, both ways.
* `readMembers_of_entries`, `exists_entries_of_readMembers`: all the others.
* `ofJson_of_form`, `ofJson_eq_ok_iff`: the whole text.
-/

namespace MasterPackage.AssetLocator

open Json (Blanks Body Skips Delimited Failure)

/-! ## The form of a text -/

/-- The strings that stand for an identifier and for a location, as far as they were met. -/
structure Strings where
  id : Option String
  uri : Option String

/-- A member behind its opening quote, and the text behind it.  Neither of the two that count
may come twice. -/
inductive Entry : Strings → List Char → Strings → List Char → Prop
  | id {uri : Option String} {s t u v cs rest : List Char} (name : Body s "id".toList t)
    (colon : Blanks t (':' :: u)) (quote : Blanks u ('"' :: v)) (value : Body v cs rest) :
    Entry ⟨none, uri⟩ s ⟨some (String.ofList cs), uri⟩ rest
  | uri {id : Option String} {s t u v cs rest : List Char} (name : Body s "absolute_uri".toList t)
    (colon : Blanks t (':' :: u)) (quote : Blanks u ('"' :: v)) (value : Body v cs rest) :
    Entry ⟨id, none⟩ s ⟨id, some (String.ofList cs)⟩ rest
  | other {met : Strings} {s t u v cs rest : List Char} (name : Body s cs t)
    (hid : cs ≠ "id".toList) (huri : cs ≠ "absolute_uri".toList) (colon : Blanks t (':' :: u))
    (h : Blanks u v) (value : Skips .value v rest) : Entry met s met rest

/-- What stands behind a member up to the end of the object, and the text behind it. -/
inductive Entries : Strings → List Char → Strings → List Char → Prop
  | close {met : Strings} {s rest : List Char} (h : Blanks s ('\x7d' :: rest)) :
    Entries met s met rest
  | more {met met' met'' : Strings} {s t u v rest : List Char} (comma : Blanks s (',' :: t))
    (quote : Blanks t ('"' :: u)) (entry : Entry met u met' v)
    (others : Entries met' v met'' rest) : Entries met s met'' rest

/-- A text has the form of a locator, with these strings for its identifier and its location. -/
inductive Form : List Char → String → String → Prop
  | object {s t u v w : List Char} {met : Strings} {id uri : String}
    (start : Blanks s ('\x7b' :: t)) (quote : Blanks t ('"' :: u))
    (first : Entry ⟨none, none⟩ u met v) (others : Entries met v ⟨some id, some uri⟩ w)
    (last : Blanks w []) : Form s id uri
  | pair {s t u v w x y z i l : List Char} (start : Blanks s ('[' :: t))
    (quote : Blanks t ('"' :: u)) (id : Body u i v) (comma : Blanks v (',' :: w))
    (quote' : Blanks w ('"' :: x)) (uri : Body x l y) (close : Blanks y (']' :: z))
    (last : Blanks z []) : Form s (String.ofList i) (String.ofList l)

/-! ## One member -/

/-- The members that strings make, unless the identifier is refused. -/
def Strings.members (met : Strings) : Except Failure Members :=
  match met.id with
  | none => .ok ⟨none, met.uri⟩
  | some i =>
    match AssetId.parse i with
    | .error _ => .error .unsuitable
    | .ok id => .ok ⟨some id, met.uri⟩

theorem Strings.of_members {met : Strings} {m : Members} (h : met.members = .ok m) :
    m.uri = met.uri ∧ m.id.isSome = met.id.isSome := by
  unfold members at h
  split at h
  · next hid =>
    cases h
    exact ⟨rfl, by rw [hid]; rfl⟩
  · next hid =>
    split at h
    · cases h
    · cases h
      exact ⟨rfl, by rw [hid]; rfl⟩

/-- A location that is met makes a member of it. -/
theorem Strings.members_with_uri (met : Strings) (uri : String) :
    (⟨met.id, some uri⟩ : Strings).members =
      met.members.map fun m => (⟨m.id, some uri⟩ : Members) := by
  unfold members
  cases met.id with
  | none => rfl
  | some i =>
    dsimp only
    cases AssetId.parse i <;> rfl

theorem readJson_of_body {s t cs rest : List Char} (quote : Blanks s ('"' :: t))
    (value : Body t cs rest) :
    AssetId.readJson s =
      match AssetId.parse (String.ofList cs) with
      | .error _ => .error .unsuitable
      | .ok id => .ok (id, rest) := by
  have hvalue : Json.stringValue s = .ok (String.ofList cs, rest) :=
    Json.stringValue_eq_ok_iff.2 ⟨t, cs, quote, value, rfl⟩
  cases hparse : AssetId.parse (String.ofList cs) with
  | error e => simp only [AssetId.readJson, hvalue, hparse]
  | ok id => simp only [AssetId.readJson, hvalue, hparse]

theorem exists_body_of_readJson {s rest : List Char} {id : AssetId}
    (h : AssetId.readJson s = .ok (id, rest)) :
    ∃ t cs, Blanks s ('"' :: t) ∧ Body t cs rest ∧ AssetId.parse (String.ofList cs) = .ok id := by
  unfold AssetId.readJson at h
  split at h
  · cases h
  next u r hvalue =>
  rcases Json.stringValue_eq_ok_iff.1 hvalue with ⟨t, cs, quote, value, rfl⟩
  split at h
  · cases h
  next i hparse =>
  cases h
  exact ⟨t, cs, quote, value, hparse⟩

/-- Reads the value of a member of the given name. -/
def readValue (m : Members) (name : String) (s : List Char) :
    Except Failure (Members × List Char) :=
  if name = "id" then (AssetId.readJson s).map fun (i, r) => (⟨some i, m.uri⟩, r)
  else if name = "absolute_uri" then (Json.stringValue s).map fun (u, r) => (⟨m.id, some u⟩, r)
  else (Json.skip s).map fun r => (m, r)

theorem name_eq_iff {cs : List Char} {name : String} :
    String.ofList cs = name ↔ cs = name.toList :=
  ⟨fun h => by rw [← h, String.toList_ofList], fun h => by rw [h, String.ofList_toList]⟩

theorem exists_of_map_eq_ok {α β : Type} {x : Except Failure α} {f : α → β} {b : β}
    (h : x.map f = .ok b) : ∃ a, x = .ok a ∧ f a = b := by
  cases x with
  | error e => cases h
  | ok a => exact ⟨a, rfl, Except.ok.inj h⟩

theorem exists_of_bind_eq_ok {α β : Type} {x : Except Failure α} {f : α → Except Failure β} {b : β}
    (h : x >>= f = .ok b) : ∃ a, x = .ok a ∧ f a = .ok b := by
  cases x with
  | error e => cases h
  | ok a => exact ⟨a, rfl, h⟩

theorem ok_bind {α β : Type} (a : α) (f : α → Except Failure β) : (Except.ok a >>= f) = f a := rfl

/-- The value of a member that may come here is read behind its name and colon. -/
theorem readMember_of_name {m : Members} {s t u cs : List Char} (name : Body s cs t)
    (hid : cs = "id".toList → m.id = none) (huri : cs = "absolute_uri".toList → m.uri = none)
    (colon : Blanks t (':' :: u)) : readMember m s = readValue m (String.ofList cs) u := by
  have hfree : ¬((String.ofList cs = "id" ∧ m.id.isSome) ∨
      (String.ofList cs = "absolute_uri" ∧ m.uri.isSome)) := by
    rintro (⟨heq, hsome⟩ | ⟨heq, hsome⟩)
    · rw [hid (name_eq_iff.1 heq)] at hsome
      cases hsome
    · rw [huri (name_eq_iff.1 heq)] at hsome
      cases hsome
  unfold readMember readValue
  simp only [Json.stringBody_eq_ok_iff.2 name, ok_bind, if_neg hfree,
    colon.skipSpace (.cons (by decide) u), pure_bind]
  cases AssetId.readJson u <;> cases Json.stringValue u <;> cases Json.skip u <;> rfl

/-- A member is read as what its string makes. -/
theorem readMember_of_entry {met met' : Strings} {m : Members} {s rest : List Char}
    (h : Entry met s met' rest) (hrest : Delimited rest) (hm : met.members = .ok m) :
    readMember m s = met'.members.map fun m' => (m', rest) := by
  cases h with
  | @id uri _ t u v cs _ name colon quote value =>
    cases hm
    rw [readMember_of_name name (fun _ => rfl) (fun heq => absurd heq (by decide)) colon, readValue,
      if_pos String.ofList_toList, readJson_of_body quote value, Strings.members]
    dsimp only
    cases AssetId.parse (String.ofList cs) <;> rfl
  | @uri id _ t u v cs _ name colon quote value =>
    have hfree : m.uri = none := (Strings.of_members hm).1
    rw [readMember_of_name name (fun heq => absurd heq (by decide)) (fun _ => hfree) colon,
      readValue, String.ofList_toList, if_neg (by decide), if_pos rfl,
      Json.stringValue_eq_ok_iff.2 ⟨v, cs, quote, value, rfl⟩,
      Strings.members_with_uri ⟨id, none⟩, hm]
    rfl
  | other name hid huri colon h value =>
    rw [readMember_of_name name (fun heq => absurd heq hid) (fun heq => absurd heq huri) colon,
      readValue, if_neg (fun heq => hid (name_eq_iff.1 heq)),
      if_neg (fun heq => huri (name_eq_iff.1 heq)), Json.skip_of_skips h value hrest, hm]
    rfl

/-- In front of a value that was read stand a name that may come there, and a colon. -/
theorem exists_name_of_readMember {m : Members} {s : List Char} {x : Members × List Char}
    (h : readMember m s = .ok x) :
    ∃ cs t u, Body s cs t ∧ Blanks t (':' :: u) ∧ (cs = "id".toList → m.id = none) ∧
      (cs = "absolute_uri".toList → m.uri = none) ∧ readValue m (String.ofList cs) u = .ok x := by
  have hread := h
  unfold readMember at h
  rcases exists_of_bind_eq_ok h with ⟨⟨cs, t⟩, hname, hbehind⟩
  have name := Json.stringBody_eq_ok_iff.1 hname
  dsimp only at hbehind
  split at hbehind
  · cases hbehind
  next hfree =>
  have hid (heq : cs = "id".toList) : m.id = none :=
    Option.not_isSome_iff_eq_none.1 fun hsome => hfree (.inl ⟨name_eq_iff.2 heq, hsome⟩)
  have huri (heq : cs = "absolute_uri".toList) : m.uri = none :=
    Option.not_isSome_iff_eq_none.1 fun hsome => hfree (.inr ⟨name_eq_iff.2 heq, hsome⟩)
  split at hbehind
  · next u hcolon =>
    have colon : Blanks t (':' :: u) := hcolon ▸ Json.blanks_skipSpace t
    rw [readMember_of_name name hid huri colon] at hread
    exact ⟨cs, t, u, name, colon, hid, huri, hread⟩
  · cases hbehind
  · cases hbehind

/-- What is read as a member is one. -/
theorem exists_entry_of_readMember {met : Strings} {m m' : Members} {s rest : List Char}
    (hm : met.members = .ok m) (h : readMember m s = .ok (m', rest)) :
    ∃ met', Entry met s met' rest ∧ met'.members = .ok m' := by
  rcases exists_name_of_readMember h with ⟨cs, t, u, name, colon, hid, huri, hvalue⟩
  rcases Strings.of_members hm with ⟨hsameUri, hsameId⟩
  rcases met with ⟨id, uri⟩
  unfold readValue at hvalue
  split at hvalue
  · next heq =>
    rcases exists_of_map_eq_ok hvalue with ⟨⟨i, r⟩, hread, hpair⟩
    cases hpair
    rcases exists_body_of_readJson hread with ⟨v, ds, quote, value, hparse⟩
    rw [name_eq_iff.1 heq] at name
    have hnone : id = none := by
      rw [hid (name_eq_iff.1 heq)] at hsameId
      exact Option.isNone_iff_eq_none.1 (Option.isSome_eq_false_iff.1 hsameId.symm)
    subst hnone
    refine ⟨_, .id name colon quote value, ?_⟩
    simp only [Strings.members, hparse, hsameUri]
  split at hvalue
  · next heq =>
    rcases exists_of_map_eq_ok hvalue with ⟨⟨l, r⟩, hread, hpair⟩
    cases hpair
    rcases Json.stringValue_eq_ok_iff.1 hread with ⟨v, ds, quote, value, rfl⟩
    rw [name_eq_iff.1 heq] at name
    have hnone : uri = none := hsameUri.symm.trans (huri (name_eq_iff.1 heq))
    subst hnone
    refine ⟨_, .uri name colon quote value, ?_⟩
    rw [Strings.members_with_uri ⟨id, none⟩, hm]
    rfl
  · next hnotId hnotUri =>
    rcases exists_of_map_eq_ok hvalue with ⟨r, hread, hpair⟩
    cases hpair
    rcases Json.skips_of_skip hread with ⟨v, hv, value⟩
    exact ⟨_, .other name (fun heq => hnotId (name_eq_iff.2 heq))
      (fun heq => hnotUri (name_eq_iff.2 heq)) colon hv value, hm⟩

/-! ## All members -/

theorem Entry.length_lt {met met' : Strings} {s rest : List Char} (h : Entry met s met' rest)
    (hrest : Delimited rest) : rest.length < s.length := by
  cases h with
  | id name colon quote value | uri name colon quote value =>
    have inside := Nat.lt_trans value.length_lt quote.length_lt
    exact Nat.lt_trans inside (Nat.lt_trans colon.length_lt name.length_lt)
  | other name _ _ colon h value =>
    rcases value.passesOver hrest with ⟨k, hk, -⟩
    have inside := Nat.le_trans (Nat.le_trans (Nat.le_add_left _ k) hk) h.length_le
    exact Nat.lt_of_le_of_lt inside (Nat.lt_trans colon.length_lt name.length_lt)

theorem Entries.delimited {met met' : Strings} {s rest : List Char}
    (h : Entries met s met' rest) : Delimited s := by
  cases h with
  | close h => exact h.delimited (.inr (.inr rfl))
  | more comma => exact comma.delimited (.inl rfl)

/-- Strings that are refused are refused whatever else is met. -/
theorem Entry.refused {met met' : Strings} {s rest : List Char} {e : Failure}
    (h : Entry met s met' rest) (hm : met.members = .error e) : met'.members = .error e := by
  cases h with
  | id => cases hm
  | @uri id => rw [Strings.members_with_uri ⟨id, none⟩, hm]; rfl
  | other => exact hm

theorem Entries.refused {met met' : Strings} {s rest : List Char} {e : Failure}
    (h : Entries met s met' rest) (hm : met.members = .error e) : met'.members = .error e := by
  induction h with
  | close => exact hm
  | more _ _ entry _ ih => exact ih (entry.refused hm)

/-- The members behind the first are read as what all the strings make. -/
theorem readMembers_of_entries {met met' : Strings} {m : Members} {s rest : List Char} {fuel : Nat}
    (h : Entries met s met' rest) (hm : met.members = .ok m) (hfuel : s.length ≤ fuel) :
    readMembers fuel m s = met'.members.map fun m' => (m', rest) := by
  induction h generalizing m fuel with
  | @close met s rest h =>
    have hlength := h.length_lt
    obtain ⟨n, rfl⟩ : ∃ n, fuel = n + 1 := ⟨fuel - 1, by omega⟩
    rw [readMembers, h.skipSpace (.cons (by decide) rest), hm]
    rfl
  | @more met met' met'' s t u v rest comma quote entry others ih =>
    have hquote := Nat.lt_trans quote.length_lt comma.length_lt
    have hentry := entry.length_lt others.delimited
    obtain ⟨n, rfl⟩ : ∃ n, fuel = n + 1 := ⟨fuel - 1, by omega⟩
    simp only [readMembers, comma.skipSpace (.cons (by decide) t),
      quote.skipSpace (.cons (by decide) u), readMember_of_entry entry others.delimited hm]
    cases hmet : met'.members with
    | error e =>
      rw [others.refused hmet]
      rfl
    | ok m' => exact ih hmet (by omega)

/-- What is read as the members behind the first are some. -/
theorem exists_entries_of_readMembers {met : Strings} {m m' : Members} {s rest : List Char}
    {fuel : Nat} (hm : met.members = .ok m) (h : readMembers fuel m s = .ok (m', rest)) :
    ∃ met', Entries met s met' rest ∧ met'.members = .ok m' := by
  induction fuel generalizing met m s with
  | zero => cases h
  | succ fuel ih =>
    rw [readMembers] at h
    have hs := Json.blanks_skipSpace s
    split at h
    · cases h
    · next r hclose =>
      rw [hclose] at hs
      cases h
      exact ⟨met, .close hs, hm⟩
    · next t hcomma =>
      rw [hcomma] at hs
      have ht := Json.blanks_skipSpace t
      split at h
      · cases h
      · next u hquote =>
        rw [hquote] at ht
        split at h
        · cases h
        next m₁ v hread =>
        rcases exists_entry_of_readMember hm hread with ⟨met₁, entry, hm₁⟩
        rcases ih hm₁ h with ⟨met', others, hm'⟩
        exact ⟨met', .more hs ht entry others, hm'⟩
      · cases h
    · cases h

/-! ## The whole text -/

/-- What an identifier and a location make, both given as strings. -/
def place (id uri : String) : Except Failure AssetLocator :=
  match AssetId.parse id with
  | .error _ => .error .unsuitable
  | .ok id => (of? id uri).mapError fun _ => .unsuitable

theorem place_eq_ok_iff {id uri : String} {l : AssetLocator} :
    place id uri = .ok l ↔ AssetId.parse id = .ok l.id ∧ uri = l.uri := by
  unfold place
  cases AssetId.parse id with
  | error e => exact ⟨nofun, fun h => absurd h.1 nofun⟩
  | ok i =>
    dsimp only
    have hof : (of? i uri).mapError (fun _ => Failure.unsuitable) = .ok l ↔ of? i uri = .ok l := by
      cases of? i uri with
      | error e => exact ⟨nofun, nofun⟩
      | ok l' => exact ⟨fun h => by cases h; rfl, fun h => by cases h; rfl⟩
    rw [hof, of?_eq_ok_iff, Except.ok.injEq]
    exact ⟨fun h => ⟨h.1.symm, h.2.symm⟩, fun h => ⟨h.1.symm, h.2.symm⟩⟩

theorem place_eq_error {id uri : String} {e : Failure} (h : place id uri = .error e) :
    e = .unsuitable := by
  unfold place at h
  split at h
  · cases h
    rfl
  · cases hof : of? _ uri with
    | error e' =>
      rw [hof] at h
      cases h
      rfl
    | ok l =>
      rw [hof] at h
      cases h

/-- Both strings together make what the members make. -/
theorem bind_locator (id uri : String) :
    ((⟨some id, some uri⟩ : Strings).members >>= Members.locator) = place id uri := by
  unfold place Strings.members
  dsimp only
  cases AssetId.parse id <;> rfl

theorem readObject_of_form {s t u v : List Char} {met : Strings} {id uri : String}
    (quote : Blanks s ('"' :: t)) (first : Entry ⟨none, none⟩ t met u)
    (others : Entries met u ⟨some id, some uri⟩ v) :
    readObject s = (place id uri).map fun l => (l, v) := by
  have hlength := Nat.lt_trans (first.length_lt others.delimited) quote.length_lt
  have hfirst := readMember_of_entry (m := .none) first others.delimited rfl
  unfold readObject
  rw [← bind_locator]
  simp only [quote.skipSpace (.cons (by decide) t), hfirst]
  cases hmet : met.members with
  | error e =>
    rw [others.refused hmet]
    rfl
  | ok m =>
    have hfuel : u.length ≤ s.length + 1 := by omega
    change (readMembers (s.length + 1) m u >>= _) = _
    rw [readMembers_of_entries others hmet hfuel]
    cases (⟨some id, some uri⟩ : Strings).members with
    | error e => rfl
    | ok m' =>
      change (m'.locator >>= _) = m'.locator.map _
      cases m'.locator <;> rfl

/-- Members that make a locator come from both strings. -/
theorem Strings.of_locator {met : Strings} {m : Members} {l : AssetLocator}
    (hm : met.members = .ok m) (h : m.locator = .ok l) :
    ∃ id, met = ⟨some id, some l.uri⟩ ∧ AssetId.parse id = .ok l.id := by
  rcases met with ⟨_ | id, _ | uri⟩
  · cases hm
    cases h
  · cases hm
    cases h
  · have hnone : m.uri = none := (of_members hm).1
    rcases m with ⟨_ | i, uri⟩
    · cases h
    · cases hnone
      cases h
  · have hplace : place id uri = .ok l := by
      rw [← bind_locator, hm]
      exact h
    rcases place_eq_ok_iff.1 hplace with ⟨hid, rfl⟩
    exact ⟨id, rfl, hid⟩

theorem exists_form_of_readObject {s rest : List Char} {l : AssetLocator}
    (h : readObject s = .ok (l, rest)) :
    ∃ t u met id, Blanks s ('"' :: t) ∧ Entry ⟨none, none⟩ t met u ∧
      Entries met u ⟨some id, some l.uri⟩ rest ∧ AssetId.parse id = .ok l.id := by
  unfold readObject at h
  dsimp only at h
  split at h
  · cases h
  · cases h
  · next t hquote =>
    have quote : Blanks s ('"' :: t) := hquote ▸ Json.blanks_skipSpace s
    rcases exists_of_bind_eq_ok h with ⟨⟨m, u⟩, hfirst, h⟩
    rcases exists_of_bind_eq_ok h with ⟨⟨m', r⟩, hothers, h⟩
    rcases exists_of_bind_eq_ok h with ⟨l', hl, h⟩
    cases h
    have hnone : (⟨none, none⟩ : Strings).members = .ok .none := rfl
    rcases exists_entry_of_readMember hnone hfirst with ⟨met, first, hm⟩
    rcases exists_entries_of_readMembers hm hothers with ⟨met', others, hm'⟩
    rcases Strings.of_locator hm' hl with ⟨id, rfl, hid⟩
    exact ⟨t, u, met, id, quote, first, others, hid⟩
  · cases h

theorem readPair_of_form {s t v w x y z i l : List Char} (quote : Blanks s ('"' :: t))
    (id : Body t i v) (comma : Blanks v (',' :: w)) (quote' : Blanks w ('"' :: x))
    (uri : Body x l y) (close : Blanks y (']' :: z)) :
    readPair s = (place (String.ofList i) (String.ofList l)).map fun a => (a, z) := by
  have hid := readJson_of_body (Blanks.refl _) id
  have huri : Json.stringValue ('"' :: x) = .ok (String.ofList l, y) :=
    Json.stringValue_eq_ok_iff.2 ⟨x, l, .refl _, uri, rfl⟩
  have hnot (r r' : List Char) : '"' :: r ≠ ']' :: r' := by simp
  unfold readPair place
  simp only [quote.skipSpace (.cons (by decide) t), pure_bind, hid, hnot, imp_false,
    not_false_eq_true, implies_true]
  cases AssetId.parse (String.ofList i) with
  | error e => rfl
  | ok a =>
    simp only [comma.skipSpace (.cons (by decide) w), quote'.skipSpace (.cons (by decide) x),
      close.skipSpace (.cons (by decide) z), ok_bind, huri, hnot, imp_false, not_false_eq_true,
      implies_true]
    cases of? a (String.ofList l) <;> rfl

theorem exists_form_of_readPair {s rest : List Char} {a : AssetLocator}
    (h : readPair s = .ok (a, rest)) :
    ∃ t v w x y i l, Blanks s ('"' :: t) ∧ Body t i v ∧ Blanks v (',' :: w) ∧ Blanks w ('"' :: x) ∧
      Body x l y ∧ Blanks y (']' :: rest) ∧ AssetId.parse (String.ofList i) = .ok a.id ∧
      String.ofList l = a.uri := by
  unfold readPair at h
  dsimp only at h
  split at h
  · cases h
  · cases h
  rcases exists_of_bind_eq_ok h with ⟨s₁, hs₁, h⟩
  cases hs₁
  rcases exists_of_bind_eq_ok h with ⟨⟨id, v⟩, hid, h⟩
  dsimp only at h
  split at h
  · cases h
  · cases h
  · next w hcomma =>
    split at h
    · cases h
    · cases h
    rcases exists_of_bind_eq_ok h with ⟨s₁, hs₁, h⟩
    cases hs₁
    rcases exists_of_bind_eq_ok h with ⟨⟨uri, y⟩, huri, h⟩
    dsimp only at h
    split at h
    · cases h
    · next z hclose =>
      rcases exists_of_bind_eq_ok h with ⟨s₁, hs₁, h⟩
      cases hs₁
      rcases exists_of_bind_eq_ok h with ⟨l, hl, h⟩
      cases h
      rcases exists_body_of_readJson hid with ⟨t, i, quote, hid, hparse⟩
      rcases Json.stringValue_eq_ok_iff.1 huri with ⟨x, l, quote', hbody, rfl⟩
      have hplace : place (String.ofList i) (String.ofList l) = .ok a := by
        rw [place, hparse]
        exact hl
      exact ⟨t, v, w, x, y, i, l, (Json.blanks_skipSpace s).trans quote, hid,
        hcomma ▸ Json.blanks_skipSpace v, (Json.blanks_skipSpace w).trans quote', hbody,
        hclose ▸ Json.blanks_skipSpace y, place_eq_ok_iff.1 hplace⟩
    · cases h
  · cases h

theorem finish_eq_ok_iff {α : Type} {a b : α} {s : List Char} :
    Json.finish (a, s) = .ok b ↔ a = b ∧ Blanks s [] := by
  rw [← Json.skipSpace_eq_iff .nil, Json.finish]
  cases Json.skipSpace s with
  | nil => exact ⟨fun h => ⟨Except.ok.inj h, rfl⟩, fun h => congrArg _ h.1⟩
  | cons c r => exact ⟨nofun, fun h => absurd h.2 (List.cons_ne_nil c r)⟩

/-- A text of this form is read as what the identifier and the location make. -/
theorem ofJson_of_form {text id uri : String} (h : Form text.toList id uri) :
    ofJson text = place id uri := by
  have hend {s : List Char} (last : Blanks s []) :
      ((place id uri).map (fun l => (l, s)) >>= Json.finish) = place id uri := by
    cases place id uri with
    | error e => rfl
    | ok l => exact finish_eq_ok_iff.2 ⟨rfl, last⟩
  unfold ofJson
  cases h with
  | object start quote first others last =>
    simp only [start.skipSpace (.cons (by decide) _), readObject_of_form quote first others]
    exact hend last
  | pair start quote id comma quote' uri close last =>
    simp only [start.skipSpace (.cons (by decide) _),
      readPair_of_form quote id comma quote' uri close]
    exact hend last

/-- A text is read exactly if it has the form of a locator and the two strings make one. -/
theorem ofJson_eq_ok_iff {text : String} {l : AssetLocator} :
    ofJson text = .ok l ↔ ∃ id, Form text.toList id l.uri ∧ AssetId.parse id = .ok l.id := by
  constructor
  · intro h
    unfold ofJson at h
    have hs := Json.blanks_skipSpace text.toList
    split at h
    · next s hopen =>
      rw [hopen] at hs
      rcases exists_of_bind_eq_ok h with ⟨⟨l', rest⟩, hread, hfinish⟩
      rcases finish_eq_ok_iff.1 hfinish with ⟨rfl, last⟩
      rcases exists_form_of_readObject hread with ⟨t, u, met, id, quote, first, others, hid⟩
      exact ⟨id, .object hs quote first others last, hid⟩
    · next s hopen =>
      rw [hopen] at hs
      rcases exists_of_bind_eq_ok h with ⟨⟨l', rest⟩, hread, hfinish⟩
      rcases finish_eq_ok_iff.1 hfinish with ⟨rfl, last⟩
      rcases exists_form_of_readPair hread with
        ⟨t, v, w, x, y, i, l, quote, id, comma, quote', uri, close, hid, huri⟩
      rw [← huri]
      exact ⟨String.ofList i, .pair hs quote id comma quote' uri close last, hid⟩
    · cases h
  · rintro ⟨id, hform, hid⟩
    rw [ofJson_of_form hform, place_eq_ok_iff]
    exact ⟨hid, rfl⟩

end MasterPackage.AssetLocator
