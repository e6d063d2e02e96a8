import MasterPackage.Proofs.Markup.Lexing

/-!
# What a written document is read as

A written document is read back as the tree that was meant.  Reading goes through the
pieces of a document one after the other (`Reads`), and each piece of content gives a
forest with the texts and elements that the piece means (`Fills`).  The forest itself
may differ from `Content.forest`: runs of text that touch are read as one text, and an
empty run as none.  The induction therefore carries the text that is not yet cut off in
front of the content (`Content.fills`).
-/

namespace MasterPackage.Markup

/-! ## Reading on -/

/-- Reading a text inside open elements gives the events, and goes on with the rest inside
the elements that are open then. -/
def Reads (opened : List (List Char)) (s : List Char) (events : List Event)
    (opened' : List (List Char)) (rest : List Char) : Prop :=
  ∀ position, ∃ position' placed, placed.map Prod.snd = events ∧
    Reading.of opened position s = Reading.after placed (Reading.of opened' position' rest)

theorem Reading.after_after (a b : List (Nat × Event)) (r : Reading) :
    after a (after b r) = after (a ++ b) r := by
  simp [after]

theorem Reads.refl (opened : List (List Char)) (s : List Char) : Reads opened s [] opened s :=
  fun position => ⟨position, [], rfl, rfl⟩

theorem Reads.trans {opened opened' opened'' : List (List Char)} {s s' s'' : List Char}
    {events events' : List Event} (h : Reads opened s events opened' s')
    (h' : Reads opened' s' events' opened'' s'') :
    Reads opened s (events ++ events') opened'' s'' := by
  intro position
  obtain ⟨position', placed, hevents, hread⟩ := h position
  obtain ⟨position'', placed', hevents', hread'⟩ := h' position'
  refine ⟨position'', placed ++ placed', ?_, ?_⟩
  · rw [List.map_append, hevents, hevents']
  · rw [hread, hread', Reading.after_after]

/-- Reading goes through one token. -/
theorem Reads.token {opened opened' : List (List Char)} {t : Token} {s rest : List Char}
    {events : List Event} (hbegins : Begins t s rest)
    (htoken : Event.ofToken opened t = .ok (events, opened')) :
    Reads opened s events opened' rest := by
  obtain ⟨c, r, chars, rfl, hcut⟩ := hbegins
  intro position
  refine ⟨position + Text.Utf8.width chars, events.map fun e => (position, e), ?_, ?_⟩
  · simp [Function.comp_def]
  · exact Reading.of_token hcut htoken position

/-! ## Content -/

/-- Reading goes through a piece of content, which has the given text and elements. -/
def Fills (opened : List (List Char)) (s : List Char) (text : String) (elements : List Element)
    (rest : List Char) : Prop :=
  ∃ f : Forest, Reads opened s f.events opened rest ∧ f.ownText = text ∧ f.elements = elements

theorem Fills.trans {opened : List (List Char)} {s s' s'' : List Char} {text text' : String}
    {elements elements' : List Element} (h : Fills opened s text elements s')
    (h' : Fills opened s' text' elements' s'') :
    Fills opened s (text ++ text') (elements ++ elements') s'' := by
  obtain ⟨f, hread, rfl, rfl⟩ := h
  obtain ⟨f', hread', rfl, rfl⟩ := h'
  refine ⟨f.append f', ?_, f.ownText_append f', f.elements_append f'⟩
  rw [Forest.events_append]
  exact hread.trans hread'

section

variable (opened : List (List Char)) (rest : List Char)

/-- Reading goes through a run of text; an empty run gives no event. -/
theorem reads_run (run : List Glyph) (hrest : rest = [] ∨ rest.head? = some '<') :
    Reads opened (Glyph.rawAll run ++ rest)
      (if run = [] then [] else [.text (String.ofList (Glyph.chars run))]) opened rest := by
  by_cases hrun : run = []
  · rw [if_pos hrun, hrun]
    exact .refl opened rest
  · have hne : Glyph.rawAll run ≠ [] := by
      intro hnil
      obtain ⟨g, run, rfl⟩ := List.exists_cons_of_ne_nil hrun
      exact g.raw_ne_nil (List.append_eq_nil_iff.1 hnil).1
    rw [if_neg hrun]
    refine .token (begins_text hne (fun d => Glyph.ne_lt_of_mem_rawAll) hrest) ?_
    simp only [Event.ofToken, Glyph.expand_rawAll]

theorem fills_run (run : List Glyph) (hrest : rest.head? = some '<') :
    Fills opened (Glyph.rawAll run ++ rest) (String.ofList (Glyph.chars run)) [] rest := by
  have hread := reads_run opened rest run (.inr hrest)
  by_cases hrun : run = []
  · rw [if_pos hrun] at hread
    exact ⟨.nil, hread, by rw [hrun]; rfl, rfl⟩
  · rw [if_neg hrun] at hread
    exact ⟨.text _ .nil, hread, String.append_empty, rfl⟩

theorem reads_aside (a : Aside) : Reads opened (a.chars ++ rest) [] opened rest :=
  .token (a.begins rest) rfl

theorem fills_characters {s : List Char} (open_ended : ¬[']', ']', '>'] <:+: s) :
    Fills opened
      ('<' :: '!' :: '[' :: 'C' :: 'D' :: 'A' :: 'T' :: 'A' :: '[' ::
        (s ++ [']', ']', '>']) ++ rest) (String.ofList s) [] rest :=
  ⟨.text _ .nil, .token (begins_characters open_ended rest) rfl, String.append_empty, rfl⟩

theorem reads_only (tag : Tag) :
    Reads opened (tag.only ++ rest) (Tree.events ⟨tag.name.localPart, .nil⟩) opened rest := by
  refine .token (tag.begins_only rest) ?_
  rw [Event.ofToken, FullName.localName_chars]
  rfl

/-- Reading goes through an element with two tags if it goes through what stands inside. -/
theorem reads_element {tag : Tag} {gap : Blanks} {s : List Char} {f : Forest}
    (hinside : Reads (tag.name.chars :: opened) s f.events (tag.name.chars :: opened)
      (tag.close gap ++ rest)) :
    Reads opened (tag.open ++ s) (Tree.events ⟨tag.name.localPart, f⟩) opened rest := by
  have hopen : Reads opened (tag.open ++ s) [.start tag.name.localPart]
      (tag.name.chars :: opened) s := by
    refine .token (tag.begins_open s) ?_
    rw [Event.ofToken, FullName.localName_chars]
  have hclose : Reads (tag.name.chars :: opened) (tag.close gap ++ rest) [.finish] opened rest := by
    refine .token (tag.begins_close gap rest) ?_
    rw [Event.ofToken, if_pos rfl]
  exact hopen.trans (hinside.trans hclose)

end

/-- A tree that reading goes through is one element of the content around it. -/
theorem Reads.fills {opened : List (List Char)} {s rest : List Char} {t : Tree}
    (h : Reads opened s t.events opened rest) : Fills opened s "" [t.element] rest :=
  ⟨.element t.name t.inside .nil, h, rfl, rfl⟩

/-- Text in front of markup belongs to the same content. -/
theorem Fills.behind_run {opened : List (List Char)} {s rest : List Char} {text : String}
    {elements : List Element} (h : Fills opened s text elements rest) (hs : s.head? = some '<')
    (run : List Glyph) :
    Fills opened (Glyph.rawAll run ++ s) (String.ofList (Glyph.chars run) ++ text) elements rest :=
  (fills_run opened s run hs).trans h

theorem Fills.behind_nothing {opened : List (List Char)} {s rest : List Char} {text : String}
    {elements : List Element}
    (h : Fills opened (Glyph.rawAll [] ++ s) (String.ofList (Glyph.chars []) ++ text) elements
      rest) : Fills opened s text elements rest := by
  rwa [Glyph.chars, List.map_nil, String.ofList_nil, String.empty_append] at h

/-- Reading goes through content, with text in front of it that is not cut off yet. -/
theorem Content.fills (c : Content) (run : List Glyph) (opened : List (List Char))
    {rest : List Char} (hrest : rest.head? = some '<') :
    Fills opened (Glyph.rawAll run ++ (c.chars ++ rest))
      (String.ofList (Glyph.chars run) ++ c.forest.ownText) c.forest.elements rest := by
  induction c generalizing run opened rest with
  | nil =>
    have h := fills_run opened rest run hrest
    rwa [← String.append_empty (s := String.ofList _)] at h
  | text more after ih =>
    have h := ih (run ++ more) opened hrest
    rw [Glyph.rawAll_append, Glyph.chars_append, String.ofList_append] at h
    simpa only [chars, forest, Forest.ownText, Forest.elements, List.append_assoc,
      String.append_assoc] using h
  | characters s open_ended after ih =>
    have hafter := (ih [] opened hrest).behind_nothing
    have hsection := (fills_characters opened (after.chars ++ rest) open_ended).trans hafter
    rw [chars, List.append_assoc]
    exact hsection.behind_run rfl run
  | aside a after ih =>
    have hafter := (ih [] opened hrest).behind_nothing
    have haside : Fills opened (a.chars ++ (after.chars ++ rest)) "" [] (after.chars ++ rest) :=
      ⟨.nil, reads_aside opened (after.chars ++ rest) a, rfl, rfl⟩
    have h := (haside.trans hafter).behind_run (a.head?_chars _) run
    rwa [String.empty_append, List.nil_append, ← List.append_assoc a.chars] at h
  | hollow tag after ih =>
    have hafter := (ih [] opened hrest).behind_nothing
    have htag := (reads_only opened (after.chars ++ rest) tag).fills
    have h := (htag.trans hafter).behind_run rfl run
    rwa [String.empty_append, ← List.append_assoc tag.only] at h
  | element tag inside gap after ihInside ihAfter =>
    have hafter := (ihAfter [] opened hrest).behind_nothing
    have hclose : (tag.close gap ++ (after.chars ++ rest)).head? = some '<' := rfl
    obtain ⟨f, hinside, htext, helements⟩ :=
      (ihInside [] (tag.name.chars :: opened) hclose).behind_nothing
    have htag := (reads_element opened (after.chars ++ rest) hinside).fills
    have h := (htag.trans hafter).behind_run rfl run
    rw [Tree.element, htext, helements, String.empty_append] at h
    simpa only [chars, forest, Forest.ownText, Forest.elements, List.append_assoc,
      List.singleton_append] using h

/-! ## Documents -/

/-- Blank texts only. -/
def AllBlank (texts : List String) : Prop :=
  ∀ s ∈ texts, ∀ c ∈ s.toList, Text.isBlank c = true

/-- Reading goes through blank text outside the root. -/
theorem reads_blank_run (run : List Glyph) (hrun : ∀ g ∈ run, Text.isBlank g.char = true)
    {rest : List Char} (hrest : rest = [] ∨ rest.head? = some '<') :
    ∃ texts, AllBlank texts ∧
      Reads [] (Glyph.rawAll run ++ rest) (Layout.texts texts) [] rest := by
  have hread := reads_run [] rest run hrest
  by_cases hnil : run = []
  · rw [if_pos hnil] at hread
    exact ⟨[], by simp [AllBlank], hread⟩
  · rw [if_neg hnil] at hread
    refine ⟨[String.ofList (Glyph.chars run)], ?_, hread⟩
    intro s hs c hc
    rw [List.mem_singleton.1 hs, String.toList_ofList] at hc
    obtain ⟨g, hg, rfl⟩ := List.mem_map.1 hc
    exact hrun g hg

/-- Reading goes through what stands around the root, with blank text in front of it that
is not cut off yet, and gives blank texts. -/
theorem reads_outer (pieces : List Outer) (run : List Glyph)
    (hrun : ∀ g ∈ run, Text.isBlank g.char = true) {rest : List Char}
    (hrest : rest = [] ∨ rest.head? = some '<') :
    ∃ texts, AllBlank texts ∧
      Reads [] (Glyph.rawAll run ++ (pieces.flatMap Outer.chars ++ rest)) (Layout.texts texts) []
        rest := by
  induction pieces generalizing run with
  | nil => exact reads_blank_run run hrun hrest
  | cons piece pieces ih =>
    rw [List.flatMap_cons, List.append_assoc]
    cases piece with
    | blank more hmore =>
      have hboth : ∀ g ∈ run ++ more, Text.isBlank g.char = true := by
        intro g hg
        rcases List.mem_append.1 hg with hg | hg
        · exact hrun g hg
        · exact hmore g hg
      have h := ih _ hboth
      rwa [Glyph.rawAll_append, List.append_assoc] at h
    | aside a =>
      obtain ⟨before, hbefore, hread⟩ := reads_blank_run run hrun
        (.inr (a.head?_chars (pieces.flatMap Outer.chars ++ rest)))
      obtain ⟨after, hafter, hread'⟩ := ih [] (by simp)
      refine ⟨before ++ after, ?_, ?_⟩
      · intro s hs
        rcases List.mem_append.1 hs with hs | hs
        · exact hbefore s hs
        · exact hafter s hs
      · rw [Layout.texts, List.map_append]
        exact hread.trans ((reads_aside [] _ a).trans hread')

namespace Source

variable (d : Source)

/-- Reading goes through the root. -/
theorem reads_root (rest : List Char) :
    ∃ t : Tree, Reads [] (d.root ++ rest) t.events [] rest ∧ t.element = d.element := by
  obtain ⟨marked, before, tag, body, after⟩ := d
  cases body with
  | only => exact ⟨⟨tag.name.localPart, .nil⟩, reads_only [] rest tag, rfl⟩
  | between inside gap =>
    have hclose : (tag.close gap ++ rest).head? = some '<' := rfl
    obtain ⟨f, hinside, htext, helements⟩ :=
      (inside.fills [] [tag.name.chars] hclose).behind_nothing
    refine ⟨⟨tag.name.localPart, f⟩, ?_, ?_⟩
    · have h := reads_element [] rest hinside
      simpa only [root, List.append_assoc] using h
    · rw [Tree.element, htext, helements]
      rfl

theorem head?_root (rest : List Char) : (d.root ++ rest).head? = some '<' := by
  obtain ⟨marked, before, tag, body, after⟩ := d
  cases body <;> rfl

/-- Reading a document gives the events of a tree with the root that is meant. -/
theorem reads :
    ∃ l : Layout, l.IsBlank ∧ l.root = some d.element ∧ Reads [] d.chars l.events [] [] := by
  obtain ⟨t, hroot, helement⟩ := d.reads_root (d.after.flatMap Outer.chars)
  obtain ⟨before, hbefore, hread⟩ := reads_outer d.before [] (by simp)
    (.inr (d.head?_root (d.after.flatMap Outer.chars)))
  obtain ⟨after, hafter, hread'⟩ := reads_outer d.after [] (by simp) (.inl rfl)
  rw [List.append_nil] at hread'
  refine ⟨⟨before, some t, after⟩, ?_, congrArg some helement, hread.trans (hroot.trans hread')⟩
  intro s hs
  rcases List.mem_append.1 hs with hs | hs
  · exact hbefore s hs
  · exact hafter s hs

/-- What stands around the root does not begin with a byte-order mark. -/
theorem head?_outer (pieces : List Outer) {rest : List Char}
    (hrest : rest.head? ≠ some Text.Utf8.mark) :
    (pieces.flatMap Outer.chars ++ rest).head? ≠ some Text.Utf8.mark := by
  induction pieces with
  | nil => exact hrest
  | cons piece pieces ih =>
    rw [List.flatMap_cons, List.append_assoc]
    cases piece with
    | aside a =>
      rw [Outer.chars, a.head?_chars]
      decide
    | blank run hrun =>
      cases run with
      | nil => exact ih
      | cons g run =>
        have hblank := hrun g (List.mem_cons_self ..)
        cases g with
        | plain c _ _ =>
          intro hhead
          have hc : c = Text.Utf8.mark := Option.some.inj hhead
          rw [Glyph.char, hc] at hblank
          exact absurd hblank (by decide)
        | reference r =>
          intro hhead
          exact absurd (Option.some.inj hhead) (by decide : '&' ≠ Text.Utf8.mark)

theorem head?_chars : d.chars.head? ≠ some Text.Utf8.mark := by
  refine head?_outer d.before ?_
  rw [d.head?_root]
  decide

/-- Reading the text of a document builds the element that it means. -/
theorem result_tree_document : (Reading.document d.chars).tree.result = .ok (some d.element) := by
  have hdocument : Reading.document d.chars = Reading.of [] 0 d.chars := by
    have hmark := d.head?_chars
    cases hchars : d.chars with
    | nil => rfl
    | cons c r =>
      rw [hchars, List.head?_cons] at hmark
      exact if_neg fun hc => hmark (congrArg some hc)
  obtain ⟨l, hblank, hroot, hreads⟩ := d.reads
  obtain ⟨stop, placed, hevents, hread⟩ := hreads 0
  rw [hdocument, hread, Reading.of_eq_nil]
  refine Reading.result_tree_eq_ok_iff.2 ⟨⟨stop, rfl⟩, ?_⟩
  exact Builder.build_eq_ok_iff.2 ⟨l, hblank, by simpa [Reading.after] using hevents, hroot.symm⟩

/-- The bytes of a document hold its text. -/
theorem text_bytes : Text.Utf8.text (Text.Utf8.dropMark d.bytes) = .ok d.chars := by
  unfold bytes
  cases d.marked with
  | true => rw [if_pos rfl, Text.Utf8.dropMark_markBytes, Text.Utf8.text_encode]
  | false =>
    have hmark := Text.Utf8.dropMark_encode d.head?_chars
    rw [if_neg Bool.false_ne_true, List.nil_append, hmark, Text.Utf8.text_encode]

theorem bytes_ne_nil : d.bytes ≠ [] := by
  intro hnil
  have htext := d.text_bytes
  have hempty : Text.Utf8.text (Text.Utf8.dropMark []) = .ok [] := Text.Utf8.text_encode []
  rw [hnil, hempty] at htext
  have hchars : d.chars = [] := (Except.ok.inj htext).symm
  have hroot := d.head?_root (d.after.flatMap Outer.chars)
  rw [(List.append_eq_nil_iff.1 hchars).2] at hroot
  cases hroot

end Source

/-- A document is made when its bytes are a text and the text builds a tree. -/
theorem Document.result_parse_eq_ok_iff {source : String} {bytes : List UInt8}
    {document : Document} :
    (parse source bytes).result = .ok document ↔
      ∃ s root, Text.Utf8.text (Text.Utf8.dropMark bytes) = .ok s ∧
        (Reading.document s).tree.result = .ok root ∧ document = ⟨source, root⟩ := by
  unfold parse
  cases htext : Text.Utf8.text (Text.Utf8.dropMark bytes) with
  | error position => simp [Attempt.fail]
  | ok s =>
    simp only [Attempt.result_bind_eq_ok_iff, Attempt.result_mapError_eq_ok_iff]
    constructor
    · intro h
      rcases h with ⟨root, htree, hdocument⟩
      exact ⟨s, root, rfl, htree, (Except.ok.inj hdocument).symm⟩
    · intro h
      rcases h with ⟨s', root, hs, htree, rfl⟩
      rw [← Except.ok.inj hs] at htree
      exact ⟨root, htree, rfl⟩

/-- A written document is read back as the tree that was meant, whatever it is called. -/
theorem Document.parse_written (d : Source) (source : String) :
    (parse source d.bytes).result = .ok ⟨source, some d.element⟩ :=
  result_parse_eq_ok_iff.2 ⟨d.chars, some d.element, d.text_bytes, d.result_tree_document, rfl⟩

/-- The character with number zero may stand in a text as it is, but not as a reference. -/
theorem Document.parse_reference_to_zero :
    numeralFrom 10 0 [0] = (Char.ofNat 0).toNat ∧
      (parse "memory" (Text.Utf8.encode "<a>&#0;</a>".toList)).result =
        .error (.malformed "memory" 3 (.reference (.number .zero))) := by
  refine ⟨by decide, ?_⟩
  have htext : Text.Utf8.text (Text.Utf8.dropMark (Text.Utf8.encode "<a>&#0;</a>".toList)) =
      .ok "<a>&#0;</a>".toList := by
    rw [Text.Utf8.dropMark_encode (by decide), Text.Utf8.text_encode]
  have hzero : Reference.expand ['&', '#', '0', ';'] = .error (.number .zero) := by
    unfold Reference.expand
    rw [Reference.expandFrom, if_pos rfl]
    rfl
  have hfault : Event.ofToken [['a']] (.text ['&', '#', '0', ';']) =
      .error (.reference (.number .zero)) := by
    simp only [Event.ofToken, hzero]
  have hread : Reading.document "<a>&#0;</a>".toList =
      ⟨[(0, .start "a")], .error (3, .reference (.number .zero))⟩ := by
    have hbegin : Reading.document "<a>&#0;</a>".toList =
        .of [] 0 ('<' :: ['a', '>', '&', '#', '0', ';', '<', '/', 'a', '>']) := rfl
    rw [hbegin, Reading.of_token rfl rfl, Reading.of_fault rfl hfault]
    rfl
  simp only [parse, htext, hread]
  rfl

end MasterPackage.Markup
