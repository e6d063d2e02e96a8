import MasterPackage.Proofs.Markup.Progress

/-!
# Documents that are cut off

A document that is cut off inside its root element is refused.  The tokens of what is
left are the first tokens of the document, up to a run of text that is cut short, so
reading comes to its end, if it does, with the same elements open as it has there in the
whole document; and inside the root at least the root is open.

* `CutShort.depth_pos_of_first`: tokens cut short inside an element leave it open.
* `rootSpan?`: the place of the root element in the bytes of a document.
* `Rooted.parse_start`, `Rooted.parse_stop`: cut off in front of the root, a document has
  no root, and cut off right behind the root it has the same one.
* `Rooted.parse_cut`: cut off anywhere between, it is refused.
-/

namespace MasterPackage.Markup

/-! ## The root element among the tokens -/

/-- The tokens before the first start tag. -/
def beforeRoot (ls : List Lexeme) : List Lexeme := ls.takeWhile fun l => !l.token.isStart

/-- The tokens from the first start tag on. -/
def fromRoot (ls : List Lexeme) : List Lexeme := ls.dropWhile fun l => !l.token.isStart

/-- The tokens up to the first behind which no element is open, given how many elements are
open in front of them. -/
def elementOf : Nat → List Lexeme → List Lexeme
  | _, [] => []
  | depth, l :: ls =>
    if l.token.depthAfter depth = 0 then [l] else l :: elementOf (l.token.depthAfter depth) ls

/-- The tokens of the root element. -/
def rootElement (ls : List Lexeme) : List Lexeme := elementOf 0 (fromRoot ls)

theorem beforeRoot_append_fromRoot (ls : List Lexeme) : beforeRoot ls ++ fromRoot ls = ls :=
  List.takeWhile_append_dropWhile

theorem not_isStart_of_mem_beforeRoot {ls : List Lexeme} {l : Lexeme} (hl : l ∈ beforeRoot ls) :
    l.token.isStart = false := by
  have hnot := List.all_eq_true.1 List.all_takeWhile l hl
  simpa using hnot

theorem elementOf_isPrefix (depth : Nat) (ls : List Lexeme) : elementOf depth ls <+: ls := by
  fun_induction elementOf depth ls with
  | case1 => exact List.nil_prefix
  | case2 depth l ls hend => exact List.cons_prefix_cons.2 ⟨rfl, List.nil_prefix⟩
  | case3 depth l ls hend ih => exact List.cons_prefix_cons.2 ⟨rfl, ih⟩

/-- Where all elements are finished in the end, the tokens of an element finish it. -/
theorem depthAfter_elementOf {depth : Nat} {ls : List Lexeme} (h : depthAfter depth ls = 0) :
    depthAfter depth (elementOf depth ls) = 0 := by
  fun_induction elementOf depth ls with
  | case1 => exact h
  | case2 depth l ls hend => exact hend
  | case3 depth l ls hend ih => exact ih h

theorem width_spell_cons (l : Lexeme) (ls : List Lexeme) :
    Text.Utf8.width (spell (l :: ls)) = Text.Utf8.width l.chars + Text.Utf8.width (spell ls) := by
  rw [spell_cons, Text.Utf8.width_append]

/-- Text that ends inside an element, behind its first token, ends inside what this token
leaves open. -/
theorem inside_of_cons {depth : Nat} {l : Lexeme} {short ls : List Lexeme}
    (hinside : Text.Utf8.width (spell (l :: short)) <
      Text.Utf8.width (spell (elementOf depth (l :: ls)))) :
    0 < l.token.depthAfter depth ∧ Text.Utf8.width (spell short) <
      Text.Utf8.width (spell (elementOf (l.token.depthAfter depth) ls)) := by
  unfold elementOf at hinside
  split at hinside
  · rw [width_spell_cons, width_spell_cons] at hinside
    exact absurd (Nat.lt_of_add_lt_add_left hinside) (Nat.not_lt_zero _)
  · next hopen =>
    rw [width_spell_cons, width_spell_cons] at hinside
    exact ⟨Nat.pos_of_ne_zero hopen, Nat.lt_of_add_lt_add_left hinside⟩

/-- Tokens cut short inside an element leave it open. -/
theorem CutShort.depth_pos {short ls : List Lexeme} (h : CutShort short ls) {depth : Nat}
    (hdepth : 0 < depth)
    (hinside : Text.Utf8.width (spell short) < Text.Utf8.width (spell (elementOf depth ls))) :
    0 < depthAfter depth short := by
  induction h generalizing depth with
  | here ls => exact hdepth
  | inText hpart ls => exact hdepth
  | behind l h ih =>
    rcases inside_of_cons hinside with ⟨hopen, hrest⟩
    exact ih hopen hrest

/-- Tokens cut short inside the element that the first of them starts leave it open. -/
theorem CutShort.depth_pos_of_first {inside rest : List Lexeme} (h : CutShort inside rest)
    {l : Lexeme} (hinside : Text.Utf8.width (spell (l :: inside)) <
      Text.Utf8.width (spell (elementOf 0 (l :: rest)))) : 0 < depthAfter 0 (l :: inside) := by
  rcases inside_of_cons hinside with ⟨hopen, hrest⟩
  exact h.depth_pos hopen hrest

/-- Tokens cut short that reach beyond those in front of the root hold all of these, and
the start tag of the root. -/
theorem CutShort.exists_fromRoot {short ls : List Lexeme} (h : CutShort short ls)
    (hbehind : Text.Utf8.width (spell (beforeRoot ls)) < Text.Utf8.width (spell short)) :
    ∃ l inside rest, short = beforeRoot ls ++ l :: inside ∧ fromRoot ls = l :: rest ∧
      CutShort inside rest := by
  induction h with
  | here ls => exact absurd hbehind (Nat.not_lt_zero _)
  | @inText part raw hpart ls =>
    have hbefore : beforeRoot (.text raw :: ls) = .text raw :: beforeRoot ls :=
      List.takeWhile_cons_of_pos rfl
    rcases hpart with ⟨y, rfl⟩
    rw [hbefore, width_spell_cons, width_spell_cons] at hbehind
    have hlonger : Text.Utf8.width (Lexeme.text (part ++ y)).chars =
        Text.Utf8.width (Lexeme.text part).chars + Text.Utf8.width y := Text.Utf8.width_append _ _
    have hnil : Text.Utf8.width (spell []) = 0 := rfl
    omega
  | @behind l short ls h ih =>
    cases hl : l.token.isStart with
    | true =>
      have hbefore : beforeRoot (l :: ls) = [] := List.takeWhile_cons_of_neg (by simp [hl])
      have hfrom : fromRoot (l :: ls) = l :: ls := List.dropWhile_cons_of_neg (by simp [hl])
      rw [hbefore, hfrom]
      exact ⟨l, short, ls, rfl, rfl, h⟩
    | false =>
      have hbefore : beforeRoot (l :: ls) = l :: beforeRoot ls :=
        List.takeWhile_cons_of_pos (by simp [hl])
      have hfrom : fromRoot (l :: ls) = fromRoot ls := List.dropWhile_cons_of_pos (by simp [hl])
      rw [hbefore, width_spell_cons, width_spell_cons] at hbehind
      rcases ih (Nat.lt_of_add_lt_add_left hbehind) with ⟨l', inside, rest, hshort, hrest, hcut⟩
      rw [hbefore, hfrom, hshort]
      exact ⟨l', inside, rest, rfl, hrest, hcut⟩

/-- The last token of an element is markup. -/
theorem elementOf_last {depth : Nat} {ls : List Lexeme} (hdepth : 0 < depth)
    (h : depthAfter depth ls = 0) :
    ∃ inside l, elementOf depth ls = inside ++ [l] ∧ ∀ raw, l ≠ .text raw := by
  fun_induction elementOf depth ls with
  | case1 depth => exact absurd h (Nat.ne_of_gt hdepth)
  | case2 depth l ls hend =>
    refine ⟨[], l, rfl, ?_⟩
    rintro raw rfl
    exact absurd hend (Nat.ne_of_gt hdepth)
  | case3 depth l ls hopen ih =>
    rcases ih (Nat.pos_of_ne_zero hopen) h with ⟨inside, last, heq, hlast⟩
    exact ⟨l :: inside, last, by rw [heq]; rfl, hlast⟩

/-- An element begins with its start tag and ends with markup. -/
theorem elementOf_ends {l : Lexeme} {rest : List Lexeme} (hl : l.token.isStart = true)
    (h : depthAfter 0 (l :: rest) = 0) :
    (∃ more, elementOf 0 (l :: rest) = l :: more) ∧
      ∃ inside last, elementOf 0 (l :: rest) = inside ++ [last] ∧ ∀ raw, last ≠ .text raw := by
  have hmarkup : ∀ raw, l ≠ .text raw := by
    rintro raw rfl
    cases hl
  unfold elementOf
  split
  · exact ⟨⟨[], rfl⟩, [], l, rfl, hmarkup⟩
  · next hopen =>
    rcases elementOf_last (Nat.pos_of_ne_zero hopen) h with ⟨inside, last, heq, hlast⟩
    exact ⟨⟨_, rfl⟩, l :: inside, last, by rw [heq]; rfl, hlast⟩

/-! ## Runs over the root element -/

namespace Progress

variable {p : Progress} {ls : List Lexeme}

/-- Nothing is built before the first start tag. -/
theorem Runs.beforeRoot (h : start.Runs ls p) :
    ∃ p₀, start.Runs (beforeRoot ls) p₀ ∧ p₀.builder = .empty ∧ p₀.Runs (fromRoot ls) p := by
  rw [← beforeRoot_append_fromRoot ls] at h
  rcases Runs.append_iff.1 h with ⟨p₀, hbefore, hfrom⟩
  exact ⟨p₀, hbefore, hbefore.empty rfl fun _ => not_isStart_of_mem_beforeRoot, hfrom⟩

/-- Where there is a root, an element starts. -/
theorem Runs.exists_first (h : start.Runs ls p) {e : Element} (hroot : p.builder.root = some e) :
    ∃ l rest, fromRoot ls = l :: rest ∧ l.token.isStart = true := by
  rcases h.beforeRoot with ⟨p₀, -, hempty, hfrom⟩
  cases hls : fromRoot ls with
  | nil =>
    rw [hls] at hfrom
    cases hfrom
    rw [hempty] at hroot
    cases hroot
  | cons l rest =>
    have hfirst := List.head?_dropWhile_not (fun l : Lexeme => !l.token.isStart) ls
    unfold fromRoot at hls
    rw [hls] at hfirst
    exact ⟨l, rest, rfl, by simpa using hfirst⟩

/-- The tokens from the root on leave no element open. -/
theorem Runs.depth_fromRoot (h : start.Runs ls p) (hopened : p.builder.opened = []) :
    depthAfter 0 (fromRoot ls) = 0 := by
  rcases h.beforeRoot with ⟨p₀, -, hempty, hfrom⟩
  have hdepth := hfrom.depth
  rw [hempty, hopened] at hdepth
  exact hdepth.symm

/-- The root is there as soon as its element has finished. -/
theorem Runs.rootElement (h : start.Runs ls p) (hopened : p.builder.opened = []) {e : Element}
    (hroot : p.builder.root = some e) :
    ∃ p₁, start.Runs (Markup.beforeRoot ls ++ rootElement ls) p₁ ∧ p₁.builder.opened = [] ∧
      p₁.builder.root = some e := by
  rcases h.beforeRoot with ⟨p₀, hbefore, hempty, hfrom⟩
  rcases h.exists_first hroot with ⟨l, rest, hls, hl⟩
  have hdepth := h.depth_fromRoot hopened
  rcases elementOf_isPrefix 0 (fromRoot ls) with ⟨after, hafter⟩
  rw [← hafter] at hfrom
  rcases Runs.append_iff.1 hfrom with ⟨p₁, helement, hrest⟩
  have hclosed : p₁.builder.opened = [] := by
    have hlength := helement.depth
    rw [hempty] at hlength
    exact List.length_eq_zero_iff.1 (hlength.trans (depthAfter_elementOf hdepth))
  have hbegun : p₁.builder.Begun := by
    rw [hls] at helement hdepth
    rcases (elementOf_ends hl hdepth).1 with ⟨more, hmore⟩
    rw [hmore] at helement
    cases helement with
    | token htakes hinside => exact hinside.begun (htakes.begun hl)
  refine ⟨p₁, Runs.append_iff.2 ⟨p₀, hbefore, helement⟩, hclosed, ?_⟩
  rcases hbegun with hopen | hsome
  · exact absurd hclosed hopen
  · rcases Option.isSome_iff_exists.1 hsome with ⟨e', he'⟩
    rw [hrest.root he'] at hroot
    rw [he', hroot]

/-- A run over tokens that are cut short inside the root leaves an element open. -/
theorem Runs.open_of_cutShort {short : List Lexeme} (h : start.Runs short p)
    (hcut : CutShort short ls)
    (hbehind : Text.Utf8.width (spell (Markup.beforeRoot ls)) < Text.Utf8.width (spell short))
    (hinside : Text.Utf8.width (spell short) <
      Text.Utf8.width (spell (Markup.beforeRoot ls)) +
        Text.Utf8.width (spell (Markup.rootElement ls))) :
    p.builder.opened ≠ [] := by
  rcases hcut.exists_fromRoot hbehind with ⟨l, inside, rest, rfl, hfrom, hcut'⟩
  rcases Runs.append_iff.1 h with ⟨p₀, hbefore, hrest⟩
  have hempty : p₀.builder = .empty :=
    hbefore.empty rfl fun _ => not_isStart_of_mem_beforeRoot
  rw [spell_append, Text.Utf8.width_append, Markup.rootElement, hfrom] at hinside
  have hpos := hcut'.depth_pos_of_first (Nat.lt_of_add_lt_add_left hinside)
  have hdepth := hrest.depth
  rw [hempty] at hdepth
  intro hnil
  rw [hnil] at hdepth
  exact absurd hdepth (Nat.ne_of_lt hpos)

end Progress

/-! ## The root element among the bytes -/

/-- The place of the root element in the bytes of a document: its first byte, and the
byte behind its last. -/
def rootSpan? (bytes : List UInt8) : Option (Nat × Nat) :=
  match Text.Utf8.text (Text.Utf8.dropMark bytes) with
  | .error _ => none
  | .ok s =>
    let body := Text.Utf8.withoutMark s
    (lexemes? body).map fun ls =>
      let start := bytes.length - Text.Utf8.width body + Text.Utf8.width (spell (beforeRoot ls))
      (start, start + Text.Utf8.width (spell (rootElement ls)))

/-- How bytes are read as a document with a root. -/
structure Rooted (bytes : List UInt8) (e : Element) where
  /-- The byte-order marks in front. -/
  marks : List Char
  tokens : List Lexeme
  last : Progress
  bytes_eq : bytes = Text.Utf8.encode (marks ++ spell tokens)
  marked : ∀ x, x <+: spell tokens →
    Text.Utf8.withoutMark (Text.Utf8.withoutMark (marks ++ x)) = x
  lexed : lexemes? (spell tokens) = some tokens
  runs : Progress.start.Runs tokens last
  closed : last.builder.opened = []
  root : last.builder.root = some e

theorem Document.exists_rooted {source : String} {bytes : List UInt8} {document : Document}
    {e : Element} (h : (parse source bytes).result = .ok document)
    (hroot : document.root = some e) : Nonempty (Rooted bytes e) := by
  rcases result_parse_eq_ok_iff_runs.1 h with ⟨full, ls, p, hbytes, hls, hruns, hclosed, rfl⟩
  rcases Text.Utf8.exists_marks full with ⟨marks, hfull, hmarks⟩
  have hspell := spell_of_lexemes? hls
  rw [← hspell] at hls hfull hmarks
  exact ⟨{
    marks := marks
    tokens := ls
    last := p
    bytes_eq := hbytes.trans (congrArg _ hfull)
    marked := hmarks
    lexed := hls
    runs := hruns
    closed := hclosed
    root := hroot }⟩

namespace Rooted

variable {bytes : List UInt8} {e : Element} (d : Rooted bytes e)

/-- The first byte of the root. -/
def start : Nat := Text.Utf8.width d.marks + Text.Utf8.width (spell (beforeRoot d.tokens))

/-- The byte behind the last of the root. -/
def stop : Nat := d.start + Text.Utf8.width (spell (rootElement d.tokens))

theorem length_bytes :
    bytes.length = Text.Utf8.width d.marks + Text.Utf8.width (spell d.tokens) := by
  have hlength := congrArg List.length d.bytes_eq
  rwa [Text.Utf8.length_encode, Text.Utf8.width_append] at hlength

theorem rootSpan?_eq : rootSpan? bytes = some (d.start, d.stop) := by
  have htext : Text.Utf8.text (Text.Utf8.dropMark bytes) =
      .ok (Text.Utf8.withoutMark (d.marks ++ spell d.tokens)) :=
    Text.Utf8.text_dropMark_eq_ok_iff.2 ⟨_, d.bytes_eq, rfl⟩
  unfold rootSpan?
  simp only [htext, d.marked _ List.prefix_rfl, d.lexed, Option.map_some, d.length_bytes,
    Nat.add_sub_cancel]
  rfl

/-- The text before the root, the root, and the text behind it. -/
theorem exists_behind : ∃ behind, spell d.tokens =
    spell (beforeRoot d.tokens) ++ (spell (rootElement d.tokens) ++ behind) := by
  rcases elementOf_isPrefix 0 (fromRoot d.tokens) with ⟨after, hafter⟩
  refine ⟨spell after, ?_⟩
  rw [rootElement, ← spell_append, ← spell_append, hafter, beforeRoot_append_fromRoot]

theorem stop_le_length : d.stop ≤ bytes.length := by
  rcases d.exists_behind with ⟨behind, hbehind⟩
  have hwidth := congrArg Text.Utf8.width hbehind
  rw [Text.Utf8.width_append, Text.Utf8.width_append] at hwidth
  rw [d.length_bytes, stop, start]
  omega

/-- The markup of the root is written between angle brackets. -/
theorem exists_chars {l : Lexeme} (hl : l ∈ rootElement d.tokens) (hmarkup : ∀ raw, l ≠ .text raw) :
    ∃ w, l.chars = '<' :: (w ++ ['>']) := by
  have hmem : l ∈ d.tokens := by
    apply (List.dropWhile_suffix _).subset
    exact (elementOf_isPrefix 0 (fromRoot d.tokens)).subset hl
  rcases text_or_markup_of_mem d.lexed hmem with ⟨raw, hraw⟩ | hw
  · exact absurd hraw (hmarkup raw)
  · exact hw

/-- The root begins and ends with an angle bracket. -/
theorem exists_inside : ∃ inside, spell (rootElement d.tokens) = '<' :: (inside ++ ['>']) := by
  rcases d.runs.exists_first d.root with ⟨l, rest, hfrom, hl⟩
  have hdepth := d.runs.depth_fromRoot d.closed
  have hchars := fun l => d.exists_chars (l := l)
  rw [rootElement, hfrom] at hchars ⊢
  rw [hfrom] at hdepth
  rcases elementOf_ends hl hdepth with ⟨⟨more, hmore⟩, tokens, last, htokens, hlast⟩
  rcases hchars last (by rw [htokens]; simp) hlast with ⟨w, hw⟩
  cases tokens with
  | nil =>
    refine ⟨w, ?_⟩
    rw [htokens, List.nil_append, spell_cons, hw]
    exact List.append_nil _
  | cons first tokens =>
    have hfirst : ∀ raw, first ≠ .text raw := by
      rw [htokens] at hmore
      cases hmore
      rintro raw rfl
      cases hl
    rcases hchars first (by rw [htokens]; simp) hfirst with ⟨v, hv⟩
    refine ⟨v ++ '>' :: (spell tokens ++ '<' :: w), ?_⟩
    rw [htokens, List.cons_append, spell_cons, spell_append, spell_cons, hw, hv]
    simp [spell]

theorem start_lt_stop : d.start < d.stop := by
  rcases d.exists_inside with ⟨inside, hinside⟩
  have hpos : 0 < '<'.utf8Size := by decide
  rw [stop, hinside, Text.Utf8.width_cons]
  omega

theorem getElem?_start : bytes[d.start]? = some 0x3C := by
  rcases d.exists_inside with ⟨inside, hinside⟩
  rcases d.exists_behind with ⟨behind, hbehind⟩
  have hbytes := d.bytes_eq
  rw [hbehind, hinside, ← List.append_assoc, List.cons_append] at hbytes
  have hget := Text.Utf8.getElem?_encode_append (c := '<') (x := 0x3C) (by decide)
    (d.marks ++ spell (beforeRoot d.tokens)) ((inside ++ ['>']) ++ behind)
  rwa [← hbytes, Text.Utf8.width_append] at hget

theorem getElem?_stop : bytes[d.stop - 1]? = some 0x3E := by
  rcases d.exists_inside with ⟨inside, hinside⟩
  rcases d.exists_behind with ⟨behind, hbehind⟩
  have hbytes := d.bytes_eq
  have hparts : d.marks ++ spell d.tokens =
      (d.marks ++ (spell (beforeRoot d.tokens) ++ '<' :: inside)) ++ '>' :: behind := by
    rw [hbehind, hinside]
    simp
  rw [hparts] at hbytes
  have hget := Text.Utf8.getElem?_encode_append (c := '>') (x := 0x3E) (by decide)
    (d.marks ++ (spell (beforeRoot d.tokens) ++ '<' :: inside)) behind
  have hplace : d.stop - 1 =
      Text.Utf8.width (d.marks ++ (spell (beforeRoot d.tokens) ++ '<' :: inside)) := by
    have hbracket : '>'.utf8Size = 1 := by decide
    simp only [stop, start, hinside, Text.Utf8.width_append, Text.Utf8.width_cons,
      Text.Utf8.width_nil, hbracket]
    omega
  rwa [← hbytes, ← hplace] at hget

/-- Bytes cut off between two tokens where no element is open are a document. -/
theorem parse_front {front back : List Lexeme} (htokens : d.tokens = front ++ back) {p : Progress}
    (hruns : Progress.start.Runs front p) (hclosed : p.builder.opened = []) (source : String) :
    (Document.parse source
        (bytes.take (Text.Utf8.width d.marks + Text.Utf8.width (spell front)))).result =
      .ok ⟨source, p.builder.root⟩ := by
  have hlexed := d.lexed
  have hfront : spell front <+: spell d.tokens := by
    rw [htokens, spell_append]
    exact List.prefix_append _ _
  refine Document.result_parse_eq_ok_iff_runs.2
    ⟨d.marks ++ spell front, front, p, ?_, ?_, hruns, hclosed, rfl⟩
  · have hbytes := d.bytes_eq
    rw [htokens, spell_append, ← List.append_assoc] at hbytes
    rw [← Text.Utf8.width_append, ← Text.Utf8.take_encode_append _ (spell back), ← hbytes]
  · rw [d.marked _ hfront]
    rw [htokens] at hlexed
    exact lexemes?_spell hlexed

/-- Before the root there is a document without one. -/
theorem parse_start (source : String) :
    (Document.parse source (bytes.take d.start)).result = .ok ⟨source, none⟩ := by
  rcases d.runs.beforeRoot with ⟨p, hruns, hempty, -⟩
  have htokens := (beforeRoot_append_fromRoot d.tokens).symm
  have hparse := d.parse_front htokens hruns (congrArg Builder.opened hempty) source
  rwa [hempty] at hparse

/-- The document ends well behind its root. -/
theorem parse_stop (source : String) :
    (Document.parse source (bytes.take d.stop)).result = .ok ⟨source, some e⟩ := by
  rcases d.runs.rootElement d.closed d.root with ⟨p, hruns, hclosed, hroot⟩
  rcases elementOf_isPrefix 0 (fromRoot d.tokens) with ⟨after, hafter⟩
  have htokens : d.tokens = (beforeRoot d.tokens ++ rootElement d.tokens) ++ after := by
    rw [List.append_assoc, rootElement, hafter, beforeRoot_append_fromRoot]
  have hparse := d.parse_front htokens hruns hclosed source
  rw [spell_append, Text.Utf8.width_append, ← Nat.add_assoc] at hparse
  rwa [hroot] at hparse

/-- A document cut off inside its root is refused. -/
theorem parse_cut {cut : List UInt8} (hcut : cut <+: bytes) (hstart : d.start < cut.length)
    (hstop : cut.length < d.stop) (source : String) :
    ∃ err, (Document.parse source cut).result = .error err := by
  cases hparse : (Document.parse source cut).result with
  | error err => exact ⟨err, rfl⟩
  | ok document =>
    exfalso
    rcases Document.result_parse_eq_ok_iff_runs.1 hparse with
      ⟨full, short, p, rfl, hshort, hruns, hclosed, -⟩
    have hprefix : full <+: d.marks ++ spell d.tokens :=
      Text.Utf8.isPrefix_of_encode (d.bytes_eq ▸ hcut)
    rw [Text.Utf8.length_encode] at hstart hstop
    rcases List.prefix_or_prefix_of_prefix hprefix (List.prefix_append d.marks _) with hfull | hfull
    · have hwidth := Text.Utf8.width_le_of_isPrefix hfull
      unfold start at hstart
      omega
    · rcases hfull with ⟨x, rfl⟩
      have hx : x <+: spell d.tokens := (List.prefix_append_right_inj d.marks).1 hprefix
      rw [d.marked x hx] at hshort
      rw [← spell_of_lexemes? hshort, Text.Utf8.width_append] at hstart hstop
      unfold stop at hstop
      unfold start at hstart hstop
      exact hruns.open_of_cutShort (cutShort_of_isPrefix d.lexed hshort hx) (by omega) (by omega)
        hclosed

end Rooted

end MasterPackage.Markup
