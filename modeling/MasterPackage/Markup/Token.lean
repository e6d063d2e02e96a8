import MasterPackage.Markup.Error
import MasterPackage.Text.Case

/-!
# Tokens

A document is cut into tokens from the front: runs of text up to the next `<`, and
the six kinds of markup that a `<` can begin.  Each kind has its own end, and a `>`
between quotes does not end a tag.

* `Token.cut_append`: the characters of a token and the text after it make up the text
  it was cut from, so tokens concatenate to the document.
* `Token.cut_rest_length`: a token takes at least one character.
-/

namespace MasterPackage.Markup

/-- A piece of a document. -/
inductive Token where
  /-- Text, with its references as they stand. -/
  | text (raw : List Char)
  /-- A section whose text holds no references. -/
  | characters (s : List Char)
  /-- A start tag, or with `empty` the tag of an element without content. -/
  | start (name : List Char) (empty : Bool)
  | finish (name : List Char)
  /-- A comment, an instruction or a declaration. -/
  | aside
  deriving DecidableEq, Repr

/-- The blanks inside markup. -/
def isTagSpace (c : Char) : Bool := c == ' ' || c == '\t' || c == '\n' || c == '\r'

/-! ## Ends of markup -/

/-- The text before and after the first occurrence of a mark. -/
def splitAt? (mark : List Char) : List Char → Option (List Char × List Char)
  | [] => none
  | c :: s =>
    if mark.isPrefixOf (c :: s) then some ([], (c :: s).drop mark.length)
    else (splitAt? mark s).map fun (body, rest) => (c :: body, rest)

/-- The content of a tag up to the `>` that ends it, and the text after that.  `quote`
is the quotation mark that is open, if one is. -/
def splitTag? : Option Char → List Char → Option (List Char × List Char)
  | _, [] => none
  | none, c :: s =>
    if c = '>' then some ([], s)
    else
      (splitTag? (if c = '\'' ∨ c = '"' then some c else none) s).map fun (body, rest) =>
        (c :: body, rest)
  | some q, c :: s =>
    (splitTag? (if c = q then none else some q) s).map fun (body, rest) => (c :: body, rest)

/-- The content of a declaration up to the `>` that ends it, and the text after that.
`depth` counts the angle brackets open inside. -/
def splitDeclaration? : Nat → List Char → Option (List Char × List Char)
  | _, [] => none
  | depth, c :: s =>
    if c = '>' ∧ depth = 0 then some ([], s)
    else
      let depth := if c = '<' then depth + 1 else if c = '>' then depth - 1 else depth
      (splitDeclaration? depth s).map fun (body, rest) => (c :: body, rest)

theorem splitAt?_append {mark s body rest : List Char} (h : splitAt? mark s = some (body, rest)) :
    body ++ mark ++ rest = s := by
  induction s generalizing body with
  | nil => simp [splitAt?] at h
  | cons c s ih =>
    simp only [splitAt?] at h
    split at h
    · next hp =>
      obtain ⟨t, ht⟩ := List.isPrefixOf_iff_prefix.1 hp
      simp only [Option.some.injEq, Prod.mk.injEq] at h
      obtain ⟨rfl, rfl⟩ := h
      simp [← ht]
    · simp only [Option.map_eq_some_iff, Prod.mk.injEq, Prod.exists] at h
      obtain ⟨b, r, hs, rfl, rfl⟩ := h
      simp [← ih hs]

theorem splitTag?_append {quote : Option Char} {s body rest : List Char}
    (h : splitTag? quote s = some (body, rest)) : body ++ '>' :: rest = s := by
  induction s generalizing quote body with
  | nil => cases quote <;> simp [splitTag?] at h
  | cons c s ih =>
    cases quote with
    | none =>
      simp only [splitTag?] at h
      split at h
      · next hc =>
        simp only [Option.some.injEq, Prod.mk.injEq] at h
        obtain ⟨rfl, rfl⟩ := h
        simp [hc]
      · simp only [Option.map_eq_some_iff, Prod.mk.injEq, Prod.exists] at h
        obtain ⟨b, r, hs, rfl, rfl⟩ := h
        simp [← ih hs]
    | some q =>
      simp only [splitTag?, Option.map_eq_some_iff, Prod.mk.injEq, Prod.exists] at h
      obtain ⟨b, r, hs, rfl, rfl⟩ := h
      simp [← ih hs]

theorem splitDeclaration?_append {depth : Nat} {s body rest : List Char}
    (h : splitDeclaration? depth s = some (body, rest)) : body ++ '>' :: rest = s := by
  induction s generalizing depth body with
  | nil => simp [splitDeclaration?] at h
  | cons c s ih =>
    simp only [splitDeclaration?] at h
    split at h
    · next hc =>
      simp only [Option.some.injEq, Prod.mk.injEq] at h
      obtain ⟨rfl, rfl⟩ := h
      simp [hc.1]
    · simp only [Option.map_eq_some_iff, Prod.mk.injEq, Prod.exists] at h
      obtain ⟨b, r, hs, rfl, rfl⟩ := h
      simp [← ih hs]

/-! ## Cutting one token -/

/-- The name that a tag's content begins with. -/
def tagName (content : List Char) : List Char := content.takeWhile fun c => !isTagSpace c

/-- The content of an end tag without the blanks at its end; nothing but blanks stays
as it is. -/
def trimEnd (content : List Char) : List Char :=
  match content.reverse.dropWhile isTagSpace with
  | [] => content
  | cs => cs.reverse

/-- The token of a tag with the given content. -/
def Token.ofTag (content : List Char) : Token :=
  match content with
  | '/' :: name => .finish (trimEnd name)
  | _ =>
    if content.getLast? = some '/' then .start (tagName content.dropLast) true
    else .start (tagName content) false

/-- The keyword of a document type declaration. -/
def doctype : List Char := ['D', 'O', 'C', 'T', 'Y', 'P', 'E']

/-- A token cut from the front of a text: its characters, and the text after it. -/
structure Token.Cut where
  token : Token
  chars : List Char
  rest : List Char

/-- Cuts the markup that begins with `<!`, given the text after these two. -/
def Token.cutDeclaration (s : List Char) : Except Fault Cut :=
  match s with
  | '-' :: '-' :: r =>
    match splitAt? ['-', '-', '>'] r with
    | some (body, rest) =>
      .ok ⟨.aside, '<' :: '!' :: '-' :: '-' :: (body ++ ['-', '-', '>']), rest⟩
    | none => .error .commentNotClosed
  | '-' :: _ => .error .commentNotClosed
  | '[' :: 'C' :: 'D' :: 'A' :: 'T' :: 'A' :: '[' :: r =>
    match splitAt? [']', ']', '>'] r with
    | some (body, rest) =>
      .ok ⟨.characters body,
        '<' :: '!' :: '[' :: 'C' :: 'D' :: 'A' :: 'T' :: 'A' :: '[' :: (body ++ [']', ']', '>']),
        rest⟩
    | none => .error .charactersNotClosed
  | '[' :: _ => .error .charactersNotClosed
  | c :: r =>
    if c = 'D' ∨ c = 'd' then
      match splitDeclaration? 0 (c :: r) with
      | some (body, rest) =>
        if Text.sameFolded (body.take 7) doctype then
          if (body.drop 7).all isTagSpace then .error .doctypeUnnamed
          else .ok ⟨.aside, '<' :: '!' :: (body ++ ['>']), rest⟩
        else .error .doctypeNotClosed
      | none => .error .doctypeNotClosed
    else .error .unknownMarkup
  | [] => .error .unknownMarkup

/-- Cuts the markup that a `<` begins, given the text after it. -/
def Token.cutMarkup (s : List Char) : Except Fault Cut :=
  match s with
  | '!' :: r => cutDeclaration r
  | '?' :: '>' :: _ => .error .instructionNotClosed
  | '?' :: r =>
    match splitAt? ['?', '>'] r with
    | some (body, rest) => .ok ⟨.aside, '<' :: '?' :: (body ++ ['?', '>']), rest⟩
    | none => .error .instructionNotClosed
  | r =>
    match splitTag? none r with
    | some (content, rest) => .ok ⟨.ofTag content, '<' :: (content ++ ['>']), rest⟩
    | none => .error .tagNotClosed

/-- Cuts the first token of a text that begins with the given character. -/
def Token.cut (c : Char) (s : List Char) : Except Fault Cut :=
  if c = '<' then cutMarkup s
  else
    let run := c :: s.takeWhile (· != '<')
    .ok ⟨.text run, run, s.dropWhile (· != '<')⟩

/-! ## What a cut keeps -/

theorem Token.cutDeclaration_append {s : List Char} {t : Cut} (h : cutDeclaration s = .ok t) :
    t.chars ++ t.rest = '<' :: '!' :: s := by
  simp only [cutDeclaration] at h
  split at h
  · split at h
    · next hs =>
      simp only [Except.ok.injEq] at h
      subst h
      simp [← splitAt?_append hs]
    · simp at h
  · simp at h
  · split at h
    · next hs =>
      simp only [Except.ok.injEq] at h
      subst h
      simp [← splitAt?_append hs]
    · simp at h
  · simp at h
  · split at h
    · split at h
      · next hs =>
        split at h
        · split at h
          · simp at h
          · simp only [Except.ok.injEq] at h
            subst h
            simp [← splitDeclaration?_append hs]
        · simp at h
      · simp at h
    · simp at h
  · simp at h

theorem Token.cutMarkup_append {s : List Char} {t : Cut} (h : cutMarkup s = .ok t) :
    t.chars ++ t.rest = '<' :: s := by
  simp only [cutMarkup] at h
  split at h
  · exact cutDeclaration_append h
  · simp at h
  · split at h
    · next hs =>
      simp only [Except.ok.injEq] at h
      subst h
      simp [← splitAt?_append hs]
    · simp at h
  · split at h
    · next hs =>
      simp only [Except.ok.injEq] at h
      subst h
      simp [← splitTag?_append hs]
    · simp at h

theorem Token.cut_append {c : Char} {s : List Char} {t : Cut} (h : cut c s = .ok t) :
    t.chars ++ t.rest = c :: s := by
  simp only [cut] at h
  split at h
  · next hc => rw [hc]; exact cutMarkup_append h
  · simp only [Except.ok.injEq] at h
    subst h
    simp

theorem Token.cutDeclaration_chars_ne_nil {s : List Char} {t : Cut} (h : cutDeclaration s = .ok t) :
    t.chars ≠ [] := by
  simp only [cutDeclaration] at h
  split at h
  · split at h
    · simp only [Except.ok.injEq] at h; subst h; simp
    · simp at h
  · simp at h
  · split at h
    · simp only [Except.ok.injEq] at h; subst h; simp
    · simp at h
  · simp at h
  · split at h
    · split at h
      · split at h
        · split at h
          · simp at h
          · simp only [Except.ok.injEq] at h; subst h; simp
        · simp at h
      · simp at h
    · simp at h
  · simp at h

theorem Token.cut_chars_ne_nil {c : Char} {s : List Char} {t : Cut} (h : cut c s = .ok t) :
    t.chars ≠ [] := by
  simp only [cut] at h
  split at h
  · simp only [cutMarkup] at h
    split at h
    · exact cutDeclaration_chars_ne_nil h
    · simp at h
    · split at h
      · simp only [Except.ok.injEq] at h; subst h; simp
      · simp at h
    · split at h
      · simp only [Except.ok.injEq] at h; subst h; simp
      · simp at h
  · simp only [Except.ok.injEq] at h; subst h; simp

theorem Token.cut_rest_length {c : Char} {s : List Char} {t : Cut} (h : cut c s = .ok t) :
    t.rest.length < (c :: s).length := by
  have h1 := congrArg List.length (cut_append h)
  have h2 := List.length_pos_iff.2 (cut_chars_ne_nil h)
  rw [List.length_append] at h1
  omega

end MasterPackage.Markup
