import MasterPackage.Proofs.Markup.Nesting
import MasterPackage.Proofs.Markup.Spelling

/-!
# Documents as they are written

The written form of a document fixes everything that its bytes show: how each character
is spelled, which text stands in sections of its own, where comments and instructions
are, the prefixes and attributes of tags, the blanks in tags, and whether an element
without content is written with one tag or with two.  Every form has its bytes
(`Source.bytes`) and the tree that it means (`Source.tree`), in which nothing is left of
prefixes, attributes, comments and instructions.
-/

namespace MasterPackage.Markup

/-! ## Tags -/

/-- The characters, apart from blanks, that may not stand in a name. -/
def nameStops : List Char := ['\'', '"', '<', '>', '/', ':']

/-- The characters that may stand in a name. -/
def isNameChar (c : Char) : Bool := !isTagSpace c && !nameStops.contains c

/-- A name without a prefix. -/
structure Name where
  chars : List Char
  ne_nil : chars ≠ []
  all_isNameChar : chars.all isNameChar = true
  no_bang : chars.head? ≠ some '!'
  no_question : chars.head? ≠ some '?'

theorem Name.isNameChar_of_mem (a : Name) : ∀ c ∈ a.chars, isNameChar c = true :=
  List.all_eq_true.1 a.all_isNameChar

/-- A name with the prefix of a name space, or without. -/
structure FullName where
  space : Option Name
  part : Name

/-- A full name as it is written. -/
def FullName.chars (n : FullName) : List Char :=
  match n.space with
  | none => n.part.chars
  | some space => space.chars ++ ':' :: n.part.chars

/-- The name of an element in the tree. -/
def FullName.localPart (n : FullName) : String := String.ofList n.part.chars

/-- Blanks inside a tag, any number of them. -/
structure Blanks where
  chars : List Char
  all_isTagSpace : chars.all isTagSpace = true

/-- No blank at all. -/
def Blanks.none : Blanks := ⟨[], rfl⟩

theorem Blanks.isTagSpace_of_mem (g : Blanks) : ∀ c ∈ g.chars, isTagSpace c = true :=
  List.all_eq_true.1 g.all_isTagSpace

/-- The marks that an attribute's value may stand between. -/
inductive Quote where
  | single
  | double
  deriving DecidableEq, Repr

/-- A quotation mark as it is written. -/
def Quote.char : Quote → Char
  | single => '\''
  | double => '"'

/-- An attribute, with the blanks in front of it and around its equals sign.  Its value
may hold everything but the mark that it stands between. -/
structure Attribute where
  gap : Blanks
  gap_ne_nil : gap.chars ≠ []
  name : FullName
  before : Blanks
  after : Blanks
  quote : Quote
  value : List Char
  quote_notMem : quote.char ∉ value

/-- An attribute's value between its marks. -/
def Attribute.quoted (a : Attribute) : List Char := a.quote.char :: (a.value ++ [a.quote.char])

/-- An attribute as it is written. -/
def Attribute.chars (a : Attribute) : List Char :=
  a.gap.chars ++ (a.name.chars ++ (a.before.chars ++ '=' :: (a.after.chars ++ a.quoted)))

/-- What stands in a start tag: a name, attributes, and blanks at the end. -/
structure Tag where
  name : FullName
  attributes : List Attribute
  gap : Blanks

/-- The content of a tag, as it is written. -/
def Tag.chars (t : Tag) : List Char :=
  t.name.chars ++ (t.attributes.flatMap Attribute.chars ++ t.gap.chars)

/-! ## Content -/

/-- What leaves no trace in the tree. -/
inductive Aside where
  | comment (s : List Char) (open_ended : ¬['-', '-', '>'] <:+: s)
  | instruction (s : List Char) (open_ended : ¬['?', '>'] <:+: s) (no_end : s.head? ≠ some '>')

/-- A comment or an instruction as it is written. -/
def Aside.chars : Aside → List Char
  | comment s _ => '<' :: '!' :: '-' :: '-' :: (s ++ ['-', '-', '>'])
  | instruction s _ _ => '<' :: '?' :: (s ++ ['?', '>'])

/-- What stands between the tags of an element, in order. -/
inductive Content where
  | nil
  | text (run : List Glyph) (rest : Content)
  /-- A section whose text holds no references. -/
  | characters (s : List Char) (open_ended : ¬[']', ']', '>'] <:+: s) (rest : Content)
  | aside (a : Aside) (rest : Content)
  /-- An element without content, written with one tag. -/
  | hollow (tag : Tag) (rest : Content)
  /-- An element written with two tags; `gap` stands behind the name in the second. -/
  | element (tag : Tag) (inside : Content) (gap : Blanks) (rest : Content)

/-- The start tag of an element, as it is written. -/
def Tag.open (t : Tag) : List Char := '<' :: (t.chars ++ ['>'])

/-- The only tag of an element without content, as it is written. -/
def Tag.only (t : Tag) : List Char := '<' :: (t.chars ++ ['/', '>'])

/-- The end tag of an element, as it is written. -/
def Tag.close (t : Tag) (gap : Blanks) : List Char :=
  '<' :: '/' :: (t.name.chars ++ (gap.chars ++ ['>']))

namespace Content

/-- Content as it is written. -/
def chars : Content → List Char
  | nil => []
  | text run rest => Glyph.rawAll run ++ rest.chars
  | characters s _ rest =>
    '<' :: '!' :: '[' :: 'C' :: 'D' :: 'A' :: 'T' :: 'A' :: '[' :: (s ++ [']', ']', '>']) ++
      rest.chars
  | aside a rest => a.chars ++ rest.chars
  | hollow tag rest => tag.only ++ rest.chars
  | element tag inside gap rest => tag.open ++ (inside.chars ++ (tag.close gap ++ rest.chars))

/-- What content means: its texts, with references resolved, and its elements. -/
def forest : Content → Forest
  | nil => .nil
  | text run rest => .text (String.ofList (Glyph.chars run)) rest.forest
  | characters s _ rest => .text (String.ofList s) rest.forest
  | aside _ rest => rest.forest
  | hollow tag rest => .element tag.name.localPart .nil rest.forest
  | element tag inside _ rest => .element tag.name.localPart inside.forest rest.forest

end Content

/-! ## Plain forms -/

/-- A tag with a name in it and nothing else. -/
def Tag.bare (name : Name) : Tag := ⟨⟨none, name⟩, [], .none⟩

/-- A piece of text: spelled character by character, or in a section of its own. -/
inductive Piece where
  | spelled (run : List Glyph)
  | verbatim (s : List Char) (open_ended : ¬[']', ']', '>'] <:+: s)

/-- The characters of a piece. -/
def Piece.chars : Piece → List Char
  | spelled run => Glyph.chars run
  | verbatim s _ => s

/-- Text without a closing angle bracket can stand in a section. -/
def Piece.ofNoBracket (s : List Char) (h : '>' ∉ s) : Piece :=
  .verbatim s fun hs => h (hs.subset (by simp))

/-- The text of pieces. -/
def Piece.text (pieces : List Piece) : String := String.ofList (pieces.flatMap chars)

namespace Content

/-- Text in pieces, in front of content. -/
def pieces : List Piece → Content → Content
  | [], rest => rest
  | .spelled run :: ps, rest => .text run (pieces ps rest)
  | .verbatim s h :: ps, rest => .characters s h (pieces ps rest)

/-- An element with bare tags, in front of content. -/
def bare (name : Name) (inside rest : Content) : Content :=
  .element (.bare name) inside .none rest

@[simp] theorem ownText_pieces (ps : List Piece) (rest : Content) :
    (pieces ps rest).forest.ownText = Piece.text ps ++ rest.forest.ownText := by
  induction ps with
  | nil => simp [pieces, Piece.text]
  | cons p ps ih =>
    have htext : Piece.text (p :: ps) = String.ofList p.chars ++ Piece.text ps := by
      rw [Piece.text, List.flatMap_cons, String.ofList_append]
      rfl
    rw [htext, String.append_assoc, ← ih]
    cases p <;> rfl

@[simp] theorem elements_pieces (ps : List Piece) (rest : Content) :
    (pieces ps rest).forest.elements = rest.forest.elements := by
  induction ps with
  | nil => rfl
  | cons p ps ih => cases p <;> exact ih

@[simp] theorem ownText_bare (name : Name) (inside rest : Content) :
    (bare name inside rest).forest.ownText = rest.forest.ownText := rfl

@[simp] theorem elements_bare (name : Name) (inside rest : Content) :
    (bare name inside rest).forest.elements =
      ⟨String.ofList name.chars, inside.forest.ownText, inside.forest.elements⟩ ::
        rest.forest.elements := rfl

end Content

/-! ## Documents -/

/-- What stands around the root. -/
inductive Outer where
  | blank (run : List Glyph) (isBlank_of_mem : ∀ g ∈ run, Text.isBlank g.char = true)
  | aside (a : Aside)

/-- What stands around the root, as it is written. -/
def Outer.chars : Outer → List Char
  | blank run _ => Glyph.rawAll run
  | aside a => a.chars

/-- How an element is written: with one tag, or with two and content between them. -/
inductive Body where
  | only
  | between (inside : Content) (gap : Blanks)

/-- A document as it is written: whether a byte-order mark stands in front, what stands
before the root, the root, and what stands after it. -/
structure Source where
  marked : Bool
  before : List Outer
  tag : Tag
  body : Body
  after : List Outer

namespace Source

/-- The root as it is written. -/
def root (d : Source) : List Char :=
  match d.body with
  | .only => d.tag.only
  | .between inside gap => d.tag.open ++ (inside.chars ++ d.tag.close gap)

/-- The text of a document behind its byte-order mark. -/
def chars (d : Source) : List Char :=
  d.before.flatMap Outer.chars ++ (d.root ++ d.after.flatMap Outer.chars)

/-- The bytes of a document. -/
def bytes (d : Source) : List UInt8 :=
  (if d.marked then Text.Utf8.markBytes else []) ++ Text.Utf8.encode d.chars

/-- The tree that a document means. -/
def tree (d : Source) : Tree :=
  match d.body with
  | .only => ⟨d.tag.name.localPart, .nil⟩
  | .between inside _ => ⟨d.tag.name.localPart, inside.forest⟩

/-- The root element that a document means. -/
def element (d : Source) : Element := d.tree.element

end Source

end MasterPackage.Markup
