import MasterPackage.Proofs.AssetLocator.Json

/-!
# Locators written to JSON and read back

A locator is written in the form that locators are read from, with its identifier in lower
case.  So writing loses nothing, and what was read from any text of that form can be written
anew and read again.
-/

namespace MasterPackage.AssetLocator

open Json (Blanks Body Failure)

/-! ## Written locators -/

/-- A member whose value is a string, behind the opening quote of its name.  There may be
blanks behind the colon. -/
def member (name : String) (blanks : List Char) (value : String) (rest : List Char) : List Char :=
  name.toList.flatMap Json.quoteChar ++ '"' :: ':' ::
    (blanks ++ '"' :: (value.toList.flatMap Json.quoteChar ++ '"' :: rest))

section Members

variable {blanks : List Char} (h : ∀ c ∈ blanks, Json.isSpace c = true) (rest : List Char)
include h

theorem Entry.id_member (uri : Option String) (id : String) :
    Entry ⟨none, uri⟩ (member "id" blanks id rest) ⟨some id, uri⟩ rest := by
  have entry : Entry ⟨none, uri⟩ (member "id" blanks id rest)
      ⟨some (String.ofList id.toList), uri⟩ rest :=
    .id (.of_quote _ _) (.refl _) ⟨blanks, h, rfl⟩ (.of_quote _ _)
  rwa [String.ofList_toList] at entry

theorem Entry.uri_member (id : Option String) (uri : String) :
    Entry ⟨id, none⟩ (member "absolute_uri" blanks uri rest) ⟨id, some uri⟩ rest := by
  have entry : Entry ⟨id, none⟩ (member "absolute_uri" blanks uri rest)
      ⟨id, some (String.ofList uri.toList)⟩ rest :=
    .uri (.of_quote _ _) (.refl _) ⟨blanks, h, rfl⟩ (.of_quote _ _)
  rwa [String.ofList_toList] at entry

end Members

/-- The text of a locator with the given blanks: in front of the first name, behind the
colons, in front of the second name and in front of the closing brace. -/
def layout (l : AssetLocator) (start behind between stop : List Char) : List Char :=
  '\x7b' :: (start ++ '"' :: member "id" behind l.id.text
    (',' :: (between ++ '"' :: member "absolute_uri" behind l.uri (stop ++ ['\x7d']))))

theorem form_layout (l : AssetLocator) {start behind between stop : List Char}
    (hstart : ∀ c ∈ start, Json.isSpace c = true) (hbehind : ∀ c ∈ behind, Json.isSpace c = true)
    (hbetween : ∀ c ∈ between, Json.isSpace c = true) (hstop : ∀ c ∈ stop, Json.isSpace c = true) :
    Form (l.layout start behind between stop) l.id.text l.uri :=
  .object (.refl _) ⟨start, hstart, rfl⟩ (Entry.id_member hbehind _ none l.id.text)
    (.more (.refl _) ⟨between, hbetween, rfl⟩ (Entry.uri_member hbehind _ _ l.uri)
      (.close ⟨stop, hstop, rfl⟩)) (.refl _)

theorem toList_compact (l : AssetLocator) : l.json.compact.toList = l.layout [] [] [] [] := by
  simp [json, AssetId.json, Json.compact, Json.compactMembers, Json.quote, Json.quoteChars, layout,
    member]

theorem toList_indented (l : AssetLocator) :
    l.json.indented.toList = l.layout ['\n', ' ', ' '] [' '] ['\n', ' ', ' '] ['\n'] := by
  simp [json, AssetId.json, Json.indented, Json.indentedAt, Json.indentedMembers, Json.newLine,
    Json.quote, Json.quoteChars, layout, member, List.replicate]

/-- A locator is written in its own form, in either layout. -/
theorem form_compact (l : AssetLocator) : Form l.json.compact.toList l.id.text l.uri := by
  rw [toList_compact]
  exact l.form_layout nofun nofun nofun nofun

theorem form_indented (l : AssetLocator) : Form l.json.indented.toList l.id.text l.uri := by
  rw [toList_indented]
  exact l.form_layout (List.all_eq_true.1 rfl) (List.all_eq_true.1 rfl) (List.all_eq_true.1 rfl)
    (List.all_eq_true.1 rfl)

/-- The identifier that is written is read back. -/
theorem parse_text (id : AssetId) : AssetId.parse id.text = .ok id := by
  let s : Uuid.Spelling id.uuid :=
    ⟨[], [], id.uuid.chars, [], rfl, .inl rfl, Text.sameFolded_refl _, rfl⟩
  rw [Uuid.parse_asset_eq_ok_iff (u := id.uuid), AssetId.text, Uuid.text, String.toList_ofList]
  exact s.parseChars_core

theorem ofJson_of_written {text : String} {l : AssetLocator}
    (h : Form text.toList l.id.text l.uri) : ofJson text = .ok l :=
  ofJson_eq_ok_iff.2 ⟨l.id.text, h, parse_text l.id⟩

/-! ## Writing and reading -/

/-- A locator that is written is read back, in either layout.  A text that is read has the
form of a locator, and whichever strings it gives, the identifier is what its string is read as
and the location is its string, which is not empty; written anew, the locator keeps its location,
has its identifier in lower case with hyphens, and is read back.  A text of that form is refused
if its location is empty or its identifier is spelled wrongly, and is read otherwise. -/
theorem json_round_trip :
    (∀ l : AssetLocator, ofJson l.json.compact = .ok l ∧ ofJson l.json.indented = .ok l) ∧
    (∀ (text : String) (l : AssetLocator), ofJson text = .ok l →
      (∃ id, Form text.toList id l.uri) ∧
      (∀ id uri, Form text.toList id uri → AssetId.parse id = .ok l.id ∧ uri = l.uri) ∧
      l.uri ≠ "" ∧
      Form l.json.compact.toList l.id.text l.uri ∧
      Uuid.Hyphenated l.id.text.toList ∧ l.id.text.toList.map Char.toLower = l.id.text.toList ∧
      ofJson l.json.compact = .ok l) ∧
    ∀ (text id uri : String), Form text.toList id uri →
      (uri = "" ∨ (¬∃ u, Uuid.Spells id u) → ofJson text = .error .unsuitable) ∧
      ∀ u (h : uri ≠ ""), Uuid.Spells id u → ofJson text = .ok ⟨⟨u⟩, uri, h⟩ := by
  refine ⟨?_, ?_, ?_⟩
  · intro l
    exact ⟨ofJson_of_written l.form_compact, ofJson_of_written l.form_indented⟩
  · intro text l h
    rcases ofJson_eq_ok_iff.1 h with ⟨id, hform, -⟩
    have hchars : l.id.text.toList = l.id.uuid.chars := by
      rw [AssetId.text, Uuid.text, String.toList_ofList]
    refine ⟨⟨id, hform⟩, ?_, l.uri_ne_empty, l.form_compact, ?_, ?_,
      ofJson_of_written l.form_compact⟩
    · intro id' uri hform'
      rw [ofJson_of_form hform'] at h
      exact place_eq_ok_iff.1 h
    · rw [hchars]
      exact l.id.uuid.hyphenated_chars
    · rw [hchars]
      exact l.id.uuid.toLower_chars
  · intro text id uri hform
    rw [ofJson_of_form hform]
    constructor
    · intro hbad
      cases hplace : place id uri with
      | error e => rw [place_eq_error hplace]
      | ok l =>
        rcases place_eq_ok_iff.1 hplace with ⟨hid, rfl⟩
        rcases hbad with hempty | hspelling
        · exact absurd hempty l.uri_ne_empty
        · exact absurd ⟨l.id.uuid, Uuid.parse_asset_iff_spells.1 hid⟩ hspelling
    · intro u h hspells
      exact place_eq_ok_iff.2 ⟨Uuid.parse_asset_iff_spells.2 hspells, rfl⟩

/-- A text with the members in the other order, one between them that plays no part, and the
identifier in capitals behind the name space. -/
def reversed (uri : String) : String :=
  String.ofList ('\x7b' :: '"' :: member "absolute_uri" [] uri (',' :: '"' ::
    ("size".toList.flatMap Json.quoteChar ++ '"' :: ':' :: 'n' :: 'u' :: 'l' :: 'l' :: ',' :: '"' ::
      member "id" [] "URN:UUID:ABABABAB-ABAB-ABAB-ABAB-ABABABABABAB" ['\x7d'])))

theorem form_reversed (uri : String) :
    Form (reversed uri).toList "URN:UUID:ABABABAB-ABAB-ABAB-ABAB-ABABABABABAB" uri := by
  have blanks := List.forall_mem_nil fun c => Json.isSpace c = true
  rw [reversed, String.toList_ofList]
  exact .object (.refl _) (.refl _) (.uri_member blanks _ none uri)
    (.more (.refl _) (.refl _)
      (.other (.of_quote _ _) (by decide) (by decide) (.refl _) (.refl _) (.null _))
      (.more (.refl _) (.refl _) (.id_member blanks _ (some uri) _) (.close (.refl _)))) (.refl _)

/-- Such a text is read and written anew, and refused with an empty location. -/
theorem json_round_trip_reversed :
    ∃ l : AssetLocator, l.id.uuid.bytes = List.replicate 16 0xAB ∧ l.uri = "x" ∧
      ofJson (reversed "x") = .ok l ∧ ofJson l.json.compact = .ok l ∧
      ofJson (reversed "") = .error .unsuitable := by
  obtain ⟨-, hread, hform⟩ := json_round_trip
  have hid : AssetId.parse "URN:UUID:ABABABAB-ABAB-ABAB-ABAB-ABABABABABAB" =
      .ok ⟨⟨List.replicate 16 0xAB, rfl⟩⟩ := by rfl
  have hx := (hform _ _ _ (form_reversed "x")).2 _ (by decide) (Uuid.parse_asset_iff_spells.1 hid)
  obtain ⟨-, -, -, -, -, -, hagain⟩ := hread _ _ hx
  exact ⟨_, rfl, rfl, hx, hagain, (hform _ _ _ (form_reversed "")).1 (.inl rfl)⟩

end MasterPackage.AssetLocator
