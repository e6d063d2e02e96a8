import MasterPackage.Markup.Event
import MasterPackage.Proofs.Text.Ascii

/-!
# Slices of a document

The tokens of a document can be cut from its bytes, without decoding them first: what ends a
token, or a name in it, is found by the bytes of ASCII characters.  On the bytes of a text
this gives the bytes of its tokens, because no byte of another character has the value of an
ASCII one, so that every slice ends between two characters.
-/

namespace MasterPackage.Markup

open Text.Utf8 (byte encode IsAscii IsHigh)

namespace Slice

/-! ## The first slice of bytes -/

/-- The bytes before and after the first occurrence of a mark. -/
def splitAt? (mark : List UInt8) : List UInt8 → Option (List UInt8 × List UInt8)
  | [] => none
  | b :: s =>
    if mark.isPrefixOf (b :: s) then some ([], (b :: s).drop mark.length)
    else (splitAt? mark s).map fun (body, rest) => (b :: body, rest)

/-- The content of a tag up to the `>` that ends it, and the bytes after that.  `quote` is
the quotation mark that is open, if one is. -/
def splitTag? : Option UInt8 → List UInt8 → Option (List UInt8 × List UInt8)
  | _, [] => none
  | none, b :: s =>
    if b = byte '>' then some ([], s)
    else
      (splitTag? (if b = byte '\'' ∨ b = byte '"' then some b else none) s).map
        fun (body, rest) => (b :: body, rest)
  | some q, b :: s =>
    (splitTag? (if b = q then none else some q) s).map fun (body, rest) => (b :: body, rest)

/-- The content of a declaration up to the `>` that ends it, and the bytes after that.
`depth` counts the angle brackets open inside. -/
def splitDeclaration? : Nat → List UInt8 → Option (List UInt8 × List UInt8)
  | _, [] => none
  | depth, b :: s =>
    if b = byte '>' ∧ depth = 0 then some ([], s)
    else
      let depth := if b = byte '<' then depth + 1 else if b = byte '>' then depth - 1 else depth
      (splitDeclaration? depth s).map fun (body, rest) => (b :: body, rest)

/-- The blanks inside markup. -/
def isTagSpace (b : UInt8) : Bool :=
  b == byte ' ' || b == byte '\t' || b == byte '\n' || b == byte '\r'

/-- The name that a tag's content begins with. -/
def tagName (content : List UInt8) : List UInt8 := content.takeWhile fun b => !isTagSpace b

/-- The content of an end tag without the blanks at its end; nothing but blanks stays as it
is. -/
def trimEnd (content : List UInt8) : List UInt8 :=
  match content.reverse.dropWhile isTagSpace with
  | [] => content
  | bs => bs.reverse

/-- The part of a name after its first colon, or all of a name without one. -/
def localName (name : List UInt8) : List UInt8 :=
  match name.dropWhile (· != byte ':') with
  | _ :: part => part
  | [] => name

/-- A piece of a document, as slices of its bytes. -/
inductive Token where
  | text (raw : List UInt8)
  | characters (s : List UInt8)
  | start (name : List UInt8) (empty : Bool)
  | finish (name : List UInt8)
  | aside

/-- The token of a tag with the given content. -/
def Token.ofTag (content : List UInt8) : Token :=
  if (encode ['/']).isPrefixOf content then .finish (trimEnd (content.drop 1))
  else if content.getLast? = some (byte '/') then .start (tagName content.dropLast) true
  else .start (tagName content) false

/-- A token cut from the front of bytes: its slice, and the bytes after it. -/
structure Cut where
  token : Token
  slice : List UInt8
  rest : List UInt8

/-- What opens a section whose text holds no references, behind `<!`. -/
def sectionMark : List Char := ['[', 'C', 'D', 'A', 'T', 'A', '[']

/-- Cuts the markup that begins with `<!`, given the bytes after these two. -/
def cutDeclaration (s : List UInt8) : Except Fault Cut :=
  if (encode ['-', '-']).isPrefixOf s then
    match splitAt? (encode ['-', '-', '>']) (s.drop 2) with
    | some (body, rest) =>
      .ok ⟨.aside, encode ['<', '!', '-', '-'] ++ (body ++ encode ['-', '-', '>']), rest⟩
    | none => .error .commentNotClosed
  else if (encode ['-']).isPrefixOf s then .error .commentNotClosed
  else if (encode sectionMark).isPrefixOf s then
    match splitAt? (encode [']', ']', '>']) (s.drop 7) with
    | some (body, rest) =>
      .ok ⟨.characters body,
        encode ('<' :: '!' :: sectionMark) ++ (body ++ encode [']', ']', '>']), rest⟩
    | none => .error .charactersNotClosed
  else if (encode ['[']).isPrefixOf s then .error .charactersNotClosed
  else if (encode ['D']).isPrefixOf s ∨ (encode ['d']).isPrefixOf s then
    match splitDeclaration? 0 s with
    | some (body, rest) =>
      if (body.take 7).map Text.Utf8.lowerByte = (encode doctype).map Text.Utf8.lowerByte then
        if (body.drop 7).all isTagSpace then .error .doctypeUnnamed
        else .ok ⟨.aside, encode ['<', '!'] ++ (body ++ encode ['>']), rest⟩
      else .error .doctypeNotClosed
    | none => .error .doctypeNotClosed
  else .error .unknownMarkup

/-- Cuts the markup that a `<` begins, given the bytes after it. -/
def cutMarkup (s : List UInt8) : Except Fault Cut :=
  if (encode ['!']).isPrefixOf s then cutDeclaration (s.drop 1)
  else if (encode ['?', '>']).isPrefixOf s then .error .instructionNotClosed
  else if (encode ['?']).isPrefixOf s then
    match splitAt? (encode ['?', '>']) (s.drop 1) with
    | some (body, rest) =>
      .ok ⟨.aside, encode ['<', '?'] ++ (body ++ encode ['?', '>']), rest⟩
    | none => .error .instructionNotClosed
  else
    match splitTag? none s with
    | some (content, rest) =>
      .ok ⟨.ofTag content, encode ['<'] ++ (content ++ encode ['>']), rest⟩
    | none => .error .tagNotClosed

/-- Cuts the first token of bytes. -/
def cut (s : List UInt8) : Except Fault Cut :=
  if (encode ['<']).isPrefixOf s then cutMarkup (s.drop 1)
  else
    .ok ⟨.text (s.takeWhile (· != byte '<')), s.takeWhile (· != byte '<'),
      s.dropWhile (· != byte '<')⟩

/-! ## Slices take up bytes -/

theorem length_of_splitAt? {mark s body rest : List UInt8}
    (h : splitAt? mark s = some (body, rest)) : rest.length ≤ s.length := by
  induction s generalizing body with
  | nil => cases h
  | cons b s ih =>
    rw [splitAt?] at h
    split at h
    · cases h
      exact (List.drop_suffix _ _).length_le
    · simp only [Option.map_eq_some_iff, Prod.mk.injEq, Prod.exists] at h
      rcases h with ⟨body', rest', hsplit, -, rfl⟩
      exact Nat.le_succ_of_le (ih hsplit)

theorem length_of_splitTag? {quote : Option UInt8} {s body rest : List UInt8}
    (h : splitTag? quote s = some (body, rest)) : rest.length ≤ s.length := by
  induction s generalizing quote body with
  | nil => cases quote <;> cases h
  | cons b s ih =>
    cases quote with
    | none =>
      rw [splitTag?] at h
      split at h
      · cases h
        exact Nat.le_succ _
      · simp only [Option.map_eq_some_iff, Prod.mk.injEq, Prod.exists] at h
        rcases h with ⟨body', rest', hsplit, -, rfl⟩
        exact Nat.le_succ_of_le (ih hsplit)
    | some q =>
      rw [splitTag?] at h
      simp only [Option.map_eq_some_iff, Prod.mk.injEq, Prod.exists] at h
      rcases h with ⟨body', rest', hsplit, -, rfl⟩
      exact Nat.le_succ_of_le (ih hsplit)

theorem length_of_splitDeclaration? {depth : Nat} {s body rest : List UInt8}
    (h : splitDeclaration? depth s = some (body, rest)) : rest.length ≤ s.length := by
  induction s generalizing depth body with
  | nil => cases h
  | cons b s ih =>
    rw [splitDeclaration?] at h
    split at h
    · cases h
      exact Nat.le_succ _
    · simp only [Option.map_eq_some_iff, Prod.mk.injEq, Prod.exists] at h
      rcases h with ⟨body', rest', hsplit, -, rfl⟩
      exact Nat.le_succ_of_le (ih hsplit)

theorem length_of_cutMarkup {s : List UInt8} {t : Cut} (h : cutMarkup s = .ok t) :
    t.rest.length ≤ s.length := by
  have hdrop (n : Nat) : (s.drop n).length ≤ s.length := (List.drop_suffix _ _).length_le
  unfold cutMarkup at h
  split at h
  · unfold cutDeclaration at h
    have hinner (n : Nat) : ((s.drop 1).drop n).length ≤ s.length :=
      Nat.le_trans (List.drop_suffix _ _).length_le (hdrop 1)
    split at h
    · split at h
      · next hsplit =>
        cases h
        exact Nat.le_trans (length_of_splitAt? hsplit) (hinner 2)
      · cases h
    split at h
    · cases h
    split at h
    · split at h
      · next hsplit =>
        cases h
        exact Nat.le_trans (length_of_splitAt? hsplit) (hinner 7)
      · cases h
    split at h
    · cases h
    split at h
    · split at h
      · next hsplit =>
        split at h
        · split at h
          · cases h
          · cases h
            exact Nat.le_trans (length_of_splitDeclaration? hsplit) (hdrop 1)
        · cases h
      · cases h
    · cases h
  split at h
  · cases h
  split at h
  · split at h
    · next hsplit =>
      cases h
      exact Nat.le_trans (length_of_splitAt? hsplit) (hdrop 1)
    · cases h
  · split at h
    · next hsplit =>
      cases h
      exact length_of_splitTag? hsplit
    · cases h

/-- A token takes at least one byte. -/
theorem length_of_cut {b : UInt8} {s : List UInt8} {t : Cut} (h : cut (b :: s) = .ok t) :
    t.rest.length < (b :: s).length := by
  unfold cut at h
  split at h
  · exact Nat.lt_succ_of_le (length_of_cutMarkup h)
  · next hbracket =>
    cases h
    have hb : (fun d => d != byte '<') b = true := by
      rw [bne_iff_ne]
      rintro rfl
      exact hbracket rfl
    rw [List.dropWhile_cons_of_pos (p := fun d => d != byte '<') hb]
    exact Nat.lt_succ_of_le (List.dropWhile_suffix _).length_le

/-! ## Slices of the bytes of a text -/

/-- A split of a text as a split of its bytes. -/
def halves (split : List Char × List Char) : List UInt8 × List UInt8 :=
  (encode split.1, encode split.2)

theorem agree_bracket : Text.Utf8.Agree (· != '<') (· != byte '<') :=
  Text.Utf8.agree_ne (by decide)

theorem agree_colon : Text.Utf8.Agree (· != ':') (· != byte ':') :=
  Text.Utf8.agree_ne (by decide)

theorem agree_tagSpace :
    Text.Utf8.Agree (fun c => !Markup.isTagSpace c) (fun b => !isTagSpace b) := by
  have hall := (((Text.Utf8.agree_ne (d := ' ') (by decide)).and
    (Text.Utf8.agree_ne (d := '\t') (by decide))).and
    (Text.Utf8.agree_ne (d := '\n') (by decide))).and
    (Text.Utf8.agree_ne (d := '\r') (by decide))
  have hchars : (fun c => !Markup.isTagSpace c) =
      fun c => ((c != ' ' && c != '\t') && c != '\n') && c != '\r' := by
    funext c
    simp only [Markup.isTagSpace, Bool.not_or]
    rfl
  have hbytes : (fun b => !isTagSpace b) = fun b =>
      ((b != byte ' ' && b != byte '\t') && b != byte '\n') && b != byte '\r' := by
    funext b
    simp only [isTagSpace, Bool.not_or]
    rfl
  rw [hchars, hbytes]
  exact hall

/-- Bytes that are high are passed over in search of a mark of ASCII characters. -/
theorem splitAt?_of_high {d : Char} (hd : IsAscii d) (m : List UInt8) {pre : List UInt8}
    (hpre : ∀ b ∈ pre, IsHigh b) (s : List UInt8) :
    splitAt? (byte d :: m) (pre ++ s) =
      (splitAt? (byte d :: m) s).map fun (body, rest) => (pre ++ body, rest) := by
  induction pre with
  | nil =>
    cases h : splitAt? (byte d :: m) s <;> simp [h]
  | cons b pre ih =>
    have hb := hpre b List.mem_cons_self
    have hnot : ¬(byte d :: m).isPrefixOf (b :: (pre ++ s)) := by
      rw [List.isPrefixOf_iff_prefix]
      exact fun hprefix => hb.ne_byte hd (List.cons_prefix_cons.1 hprefix).1.symm
    rw [List.cons_append, splitAt?, if_neg hnot, ih fun c hc => hpre c (List.mem_cons_of_mem b hc)]
    cases splitAt? (byte d :: m) s <;> rfl

theorem splitAt?_encode {d : Char} {m : List Char} (hm : ∀ c ∈ d :: m, IsAscii c)
    (s : List Char) :
    splitAt? (encode (d :: m)) (encode s) = (Markup.splitAt? (d :: m) s).map halves := by
  have hd := hm d List.mem_cons_self
  induction s with
  | nil => rfl
  | cons c s ih =>
    rw [Markup.splitAt?]
    by_cases hc : IsAscii c
    · have htest := Text.Utf8.isPrefixOf_encode (d :: m) (c :: s)
      rw [Text.Utf8.encode_cons_of_isAscii hc] at htest ⊢
      rw [splitAt?, htest]
      split
      · next hmark =>
        have hprefix := List.isPrefixOf_iff_prefix.1 hmark
        have hdrop := Text.Utf8.drop_encode_of_isPrefix hm hprefix
        rw [Text.Utf8.encode_cons_of_isAscii hc] at hdrop
        rw [Text.Utf8.length_encode_of_isAscii hm, hdrop]
        rfl
      · rw [ih]
        cases Markup.splitAt? (d :: m) s with
        | none => rfl
        | some split =>
          simp only [Option.map_some, halves, Text.Utf8.encode_cons_of_isAscii hc]
    · have hnot : ¬(d :: m).isPrefixOf (c :: s) := by
        rw [List.isPrefixOf_iff_prefix]
        exact fun hprefix => hc ((List.cons_prefix_cons.1 hprefix).1 ▸ hd)
      rw [if_neg hnot, Text.Utf8.encode_cons c s, Text.Utf8.encode_cons_of_isAscii hd,
        splitAt?_of_high hd _ fun b hb => Text.Utf8.isHigh_of_mem hc hb,
        ← Text.Utf8.encode_cons_of_isAscii hd, ih]
      cases Markup.splitAt? (d :: m) s <;> rfl

/-- Bytes that are high are passed over in search of the end of a tag. -/
theorem splitTag?_of_high {quote : Option Char} (hquote : ∀ q ∈ quote, IsAscii q)
    {pre : List UInt8} (hpre : ∀ b ∈ pre, IsHigh b) (s : List UInt8) :
    splitTag? (quote.map byte) (pre ++ s) =
      (splitTag? (quote.map byte) s).map fun (body, rest) => (pre ++ body, rest) := by
  induction pre with
  | nil =>
    cases h : splitTag? (quote.map byte) s <;> simp [h]
  | cons b pre ih =>
    have hb := hpre b List.mem_cons_self
    have hrest := ih fun c hc => hpre c (List.mem_cons_of_mem b hc)
    cases quote with
    | none =>
      have hquoted : ¬(b = byte '\'' ∨ b = byte '"') := by
        rintro (h | h)
        · exact hb.ne_byte (by decide) h
        · exact hb.ne_byte (by decide) h
      change splitTag? none (b :: (pre ++ s)) = _
      rw [splitTag?, if_neg (hb.ne_byte (by decide)), if_neg hquoted]
      change (splitTag? (Option.map byte none) (pre ++ s)).map _ = _
      rw [hrest]
      cases splitTag? (Option.map byte none) s <;> rfl
    | some q =>
      change splitTag? (some (byte q)) (b :: (pre ++ s)) = _
      rw [splitTag?, if_neg (hb.ne_byte (hquote q rfl))]
      change (splitTag? (Option.map byte (some q)) (pre ++ s)).map _ = _
      rw [hrest]
      cases splitTag? (Option.map byte (some q)) s <;> rfl

/-- A character that is not ASCII neither ends a tag nor begins or ends a quotation. -/
theorem splitTag?_chars_of_high {c : Char} (hc : ¬IsAscii c) {quote : Option Char}
    (hquote : ∀ q ∈ quote, IsAscii q) (s : List Char) :
    Markup.splitTag? quote (c :: s) =
      (Markup.splitTag? quote s).map fun (body, rest) => (c :: body, rest) := by
  have hne {d : Char} (hd : IsAscii d) : c ≠ d := fun h => hc (h ▸ hd)
  cases quote with
  | none =>
    have hquoted : ¬(c = '\'' ∨ c = '"') := by
      rintro (h | h)
      · exact hne (by decide) h
      · exact hne (by decide) h
    rw [Markup.splitTag?, if_neg (hne (by decide)), if_neg hquoted]
  | some q => rw [Markup.splitTag?, if_neg (hne (hquote q rfl))]

theorem splitTag?_encode {quote : Option Char} (hquote : ∀ q ∈ quote, IsAscii q)
    (s : List Char) :
    splitTag? (quote.map byte) (encode s) = (Markup.splitTag? quote s).map halves := by
  induction s generalizing quote with
  | nil => cases quote <;> rfl
  | cons c s ih =>
    by_cases hc : IsAscii c
    · have hbyte {d : Char} (hd : IsAscii d) : byte c = byte d ↔ c = d :=
        Text.Utf8.byte_eq_iff hc hd
      rw [Text.Utf8.encode_cons_of_isAscii hc]
      cases quote with
      | none =>
        change splitTag? none (byte c :: encode s) = _
        have hquoted : (byte c = byte '\'' ∨ byte c = byte '"') ↔ c = '\'' ∨ c = '"' :=
          or_congr (hbyte (by decide)) (hbyte (by decide))
        have hnext : (if byte c = byte '\'' ∨ byte c = byte '"' then some (byte c) else none) =
            (if c = '\'' ∨ c = '"' then some c else none).map byte := by
          simp only [hquoted]
          split <;> rfl
        have hopen : ∀ q ∈ (if c = '\'' ∨ c = '"' then some c else none), IsAscii q := by
          intro q hq
          split at hq
          · cases hq
            exact hc
          · cases hq
        have hend : byte c = byte '>' ↔ c = '>' := hbyte (by decide)
        rw [splitTag?, Markup.splitTag?, hnext, ih hopen]
        simp only [hend]
        split
        · rfl
        · cases Markup.splitTag? (if c = '\'' ∨ c = '"' then some c else none) s with
          | none => rfl
          | some split => simp only [Option.map_some, halves, Text.Utf8.encode_cons_of_isAscii hc]
      | some q =>
        change splitTag? (some (byte q)) (byte c :: encode s) = _
        have hclose : byte c = byte q ↔ c = q := hbyte (hquote q rfl)
        have hnext : (if byte c = byte q then none else some (byte q)) =
            (if c = q then none else some q).map byte := by
          simp only [hclose]
          split <;> rfl
        have hopen : ∀ q' ∈ (if c = q then none else some q), IsAscii q' := by
          intro q' hq'
          split at hq'
          · cases hq'
          · cases hq'
            exact hquote q rfl
        rw [splitTag?, Markup.splitTag?, hnext, ih hopen]
        cases Markup.splitTag? (if c = q then none else some q) s with
        | none => rfl
        | some split => simp only [Option.map_some, halves, Text.Utf8.encode_cons_of_isAscii hc]
    · rw [Text.Utf8.encode_cons,
        splitTag?_of_high hquote fun b hb => Text.Utf8.isHigh_of_mem hc hb, ih hquote,
        splitTag?_chars_of_high hc hquote]
      cases Markup.splitTag? quote s <;> rfl

/-- Bytes that are high are passed over in search of the end of a declaration. -/
theorem splitDeclaration?_of_high (depth : Nat) {pre : List UInt8} (hpre : ∀ b ∈ pre, IsHigh b)
    (s : List UInt8) :
    splitDeclaration? depth (pre ++ s) =
      (splitDeclaration? depth s).map fun (body, rest) => (pre ++ body, rest) := by
  induction pre with
  | nil =>
    cases h : splitDeclaration? depth s <;> simp [h]
  | cons b pre ih =>
    have hb := hpre b List.mem_cons_self
    have hclose : b ≠ byte '>' := hb.ne_byte (by decide)
    have hopen : b ≠ byte '<' := hb.ne_byte (by decide)
    rw [List.cons_append, splitDeclaration?, if_neg (fun h => hclose h.1), if_neg hopen,
      if_neg hclose]
    dsimp only
    rw [ih fun c hc => hpre c (List.mem_cons_of_mem b hc)]
    cases splitDeclaration? depth s <;> rfl

theorem splitDeclaration?_encode (depth : Nat) (s : List Char) :
    splitDeclaration? depth (encode s) = (Markup.splitDeclaration? depth s).map halves := by
  induction s generalizing depth with
  | nil => rfl
  | cons c s ih =>
    by_cases hc : IsAscii c
    · have hclose : byte c = byte '>' ↔ c = '>' := Text.Utf8.byte_eq_iff hc (by decide)
      have hopen : byte c = byte '<' ↔ c = '<' := Text.Utf8.byte_eq_iff hc (by decide)
      rw [Text.Utf8.encode_cons_of_isAscii hc, splitDeclaration?, Markup.splitDeclaration?]
      simp only [hclose, hopen]
      split
      · rfl
      · rw [ih]
        cases Markup.splitDeclaration?
          (if c = '<' then depth + 1 else if c = '>' then depth - 1 else depth) s with
        | none => rfl
        | some split => simp only [Option.map_some, halves, Text.Utf8.encode_cons_of_isAscii hc]
    · have hclose : c ≠ '>' := fun h => hc (h ▸ by decide)
      have hopen : c ≠ '<' := fun h => hc (h ▸ by decide)
      rw [Text.Utf8.encode_cons,
        splitDeclaration?_of_high depth fun b hb => Text.Utf8.isHigh_of_mem hc hb, ih,
        Markup.splitDeclaration?, if_neg (fun h => hclose h.1), if_neg hopen, if_neg hclose]
      dsimp only
      cases Markup.splitDeclaration? depth s <;> rfl

theorem tagName_encode (content : List Char) :
    tagName (encode content) = encode (Markup.tagName content) :=
  Text.Utf8.takeWhile_encode agree_tagSpace content

theorem trimEnd_eq (content : List UInt8) :
    trimEnd content =
      if content.reverse.dropWhile isTagSpace = [] then content
      else (content.reverse.dropWhile isTagSpace).reverse := by
  unfold trimEnd
  cases content.reverse.dropWhile isTagSpace with
  | nil => exact (if_pos rfl).symm
  | cons b bs => exact (if_neg (List.cons_ne_nil b bs)).symm

theorem trimEnd_chars_eq (content : List Char) :
    Markup.trimEnd content =
      if content.reverse.dropWhile Markup.isTagSpace = [] then content
      else (content.reverse.dropWhile Markup.isTagSpace).reverse := by
  unfold Markup.trimEnd
  cases content.reverse.dropWhile Markup.isTagSpace with
  | nil => exact (if_pos rfl).symm
  | cons c cs => exact (if_neg (List.cons_ne_nil c cs)).symm

theorem trimEnd_encode (content : List Char) :
    trimEnd (encode content) = encode (Markup.trimEnd content) := by
  have hdrop := Text.Utf8.reverse_dropWhile_encode agree_tagSpace content
  simp only [Bool.not_not] at hdrop
  have hnil : (encode content).reverse.dropWhile isTagSpace = [] ↔
      content.reverse.dropWhile Markup.isTagSpace = [] := by
    rw [hdrop, List.reverse_eq_nil_iff, Text.Utf8.encode_eq_nil_iff, List.reverse_eq_nil_iff]
  rw [trimEnd_eq, trimEnd_chars_eq]
  by_cases h : content.reverse.dropWhile Markup.isTagSpace = []
  · rw [if_pos h, if_pos (hnil.2 h)]
  · rw [if_neg h, if_neg fun heq => h (hnil.1 heq), hdrop, List.reverse_reverse]

theorem localName_encode (name : List Char) :
    localName (encode name) = encode (Markup.localName name) := by
  unfold localName Markup.localName
  rw [Text.Utf8.dropWhile_encode agree_colon]
  cases hrest : name.dropWhile (· != ':') with
  | nil => rfl
  | cons c part =>
    -- what is left begins with the colon, which is one byte
    have hcolon := List.head?_dropWhile_not (· != ':') name
    rw [hrest, List.head?_cons] at hcolon
    have hc : c = ':' := by simpa using hcolon
    rw [hc, Text.Utf8.encode_cons_of_isAscii (by decide)]

/-! ## The first slice of the bytes of a text -/

/-- The token with its texts as bytes. -/
def Token.of : Markup.Token → Token
  | .text raw => .text (encode raw)
  | .characters s => .characters (encode s)
  | .start name empty => .start (encode name) empty
  | .finish name => .finish (encode name)
  | .aside => .aside

/-- The first token of a text as the first slice of its bytes. -/
def Cut.of (t : Markup.Token.Cut) : Cut := ⟨.of t.token, encode t.chars, encode t.rest⟩

/-- A text begins with a character or does not. -/
theorem isPrefixOf_single {c d : Char} (s : List Char) : [d].isPrefixOf (c :: s) ↔ c = d := by
  rw [List.isPrefixOf_iff_prefix, List.cons_prefix_cons]
  exact ⟨fun h => h.1.symm, fun h => ⟨h.symm, List.nil_prefix⟩⟩

theorem not_isPrefixOf {m s : List Char} (h : ∀ t, s ≠ m ++ t) : ¬m.isPrefixOf s := by
  rw [List.isPrefixOf_iff_prefix]
  exact fun ⟨t, ht⟩ => h t ht.symm

theorem not_isPrefixOf_of_ne {c d : Char} (h : c ≠ d) (m s : List Char) :
    ¬(d :: m).isPrefixOf (c :: s) :=
  not_isPrefixOf fun _ heq => h (List.cons.inj heq).1

theorem ofTag_encode (content : List Char) :
    Token.ofTag (encode content) = .of (.ofTag content) := by
  unfold Markup.Token.ofTag
  split
  · next name =>
    rw [Token.ofTag, Text.Utf8.isPrefixOf_encode,
      if_pos (show ['/'].isPrefixOf ('/' :: name) from rfl)]
    change Token.finish (trimEnd (encode name)) = .finish (encode (Markup.trimEnd name))
    rw [trimEnd_encode]
  · next hslash =>
    rw [Token.ofTag, Text.Utf8.isPrefixOf_encode, if_neg (not_isPrefixOf hslash)]
    by_cases hlast : content.getLast? = some '/'
    · rw [if_pos hlast, if_pos ((Text.Utf8.getLast?_encode (by decide) content).2 hlast),
        Text.Utf8.dropLast_encode (by decide) hlast, tagName_encode]
      rfl
    · rw [if_neg hlast,
        if_neg fun h => hlast ((Text.Utf8.getLast?_encode (by decide) content).1 h),
        tagName_encode]
      rfl

theorem isAscii_of_mem {m : List Char} (h : m.all (IsAscii ·) = true) : ∀ c ∈ m, IsAscii c :=
  fun c hc => of_decide_eq_true (List.all_eq_true.1 h c hc)

/-- The keyword of a declaration is told from its bytes. -/
theorem keyword_encode (body : List Char) :
    ((encode body).take 7).map Text.Utf8.lowerByte = (encode doctype).map Text.Utf8.lowerByte ↔
      Text.sameFolded (body.take 7) doctype = true :=
  Text.Utf8.take_encode_sameFolded (m := doctype) (isAscii_of_mem (by decide)) body

/-- Behind the keyword, a declaration goes on with the same blanks. -/
theorem blank_behind_keyword {body : List Char}
    (h : Text.sameFolded (body.take 7) doctype = true) :
    ((encode body).drop 7).all isTagSpace = (body.drop 7).all Markup.isTagSpace := by
  have hlength := congrArg List.length (Text.sameFolded_iff.1 h)
  rw [List.length_map, List.length_map] at hlength
  have hword : ∀ c ∈ body.take 7, IsAscii c := by
    intro c hc
    rcases Text.exists_of_sameFolded h hc with ⟨d, hd, hcase⟩
    have hd' : IsAscii d := isAscii_of_mem (m := doctype) (by decide) d hd
    exact Text.Utf8.isAscii_toLower.1 (hcase ▸ Text.Utf8.isAscii_toLower.2 hd')
  have hdrop := Text.Utf8.drop_encode_of_isPrefix hword (List.take_prefix 7 body)
  rw [hlength, show doctype.length = 7 from rfl] at hdrop
  have hall := Text.Utf8.all_not_encode agree_tagSpace (body.drop 7)
  simp only [Bool.not_not] at hall
  rw [hdrop]
  exact hall

theorem cutDeclaration_encode (s : List Char) :
    cutDeclaration (encode s) = (Markup.Token.cutDeclaration s).map Cut.of := by
  unfold Markup.Token.cutDeclaration
  split
  · next r =>
    unfold cutDeclaration
    simp only [Text.Utf8.isPrefixOf_encode]
    rw [if_pos (show ['-', '-'].isPrefixOf ('-' :: '-' :: r) from rfl),
      show (encode ('-' :: '-' :: r)).drop 2 = encode r from rfl,
      splitAt?_encode (isAscii_of_mem (by decide))]
    cases Markup.splitAt? ['-', '-', '>'] r with
    | none => rfl
    | some split =>
      rcases split with ⟨body, rest⟩
      simp only [Option.map_some, halves, ← Text.Utf8.encode_append]
      rfl
  · next r hdash =>
    unfold cutDeclaration
    simp only [Text.Utf8.isPrefixOf_encode]
    rw [if_neg (not_isPrefixOf fun t ht => hdash t (List.cons.inj ht).2),
      if_pos (show ['-'].isPrefixOf ('-' :: r) from rfl)]
    rfl
  · next r =>
    unfold cutDeclaration
    simp only [Text.Utf8.isPrefixOf_encode]
    rw [if_neg (not_isPrefixOf_of_ne (by decide) _ _),
      if_neg (not_isPrefixOf_of_ne (by decide) _ _),
      if_pos
        (show sectionMark.isPrefixOf ('[' :: 'C' :: 'D' :: 'A' :: 'T' :: 'A' :: '[' :: r) from rfl),
      show (encode ('[' :: 'C' :: 'D' :: 'A' :: 'T' :: 'A' :: '[' :: r)).drop 7 = encode r from rfl,
      splitAt?_encode (isAscii_of_mem (by decide))]
    cases Markup.splitAt? [']', ']', '>'] r with
    | none => rfl
    | some split =>
      rcases split with ⟨body, rest⟩
      simp only [Option.map_some, halves, ← Text.Utf8.encode_append]
      rfl
  · next r hsection =>
    unfold cutDeclaration
    simp only [Text.Utf8.isPrefixOf_encode]
    rw [if_neg (not_isPrefixOf_of_ne (by decide) _ _),
      if_neg (not_isPrefixOf_of_ne (by decide) _ _),
      if_neg (not_isPrefixOf fun t ht => hsection t (List.cons.inj ht).2),
      if_pos (show ['['].isPrefixOf ('[' :: r) from rfl)]
    rfl
  · next c r _ hdash _ hbracket =>
    unfold cutDeclaration
    simp only [Text.Utf8.isPrefixOf_encode]
    rw [if_neg (not_isPrefixOf_of_ne hdash _ _), if_neg (not_isPrefixOf_of_ne hdash _ _),
      if_neg (show ¬sectionMark.isPrefixOf (c :: r) from not_isPrefixOf_of_ne hbracket _ _),
      if_neg (not_isPrefixOf_of_ne hbracket _ _)]
    simp only [isPrefixOf_single, splitDeclaration?_encode]
    split
    · cases Markup.splitDeclaration? 0 (c :: r) with
      | none => rfl
      | some split =>
        rcases split with ⟨body, rest⟩
        simp only [Option.map_some, halves, keyword_encode]
        split
        · next hkeyword =>
          rw [blank_behind_keyword hkeyword]
          split
          · rfl
          · simp only [← Text.Utf8.encode_append]
            rfl
        · rfl
    · rfl
  · rfl

theorem cutMarkup_encode (s : List Char) :
    cutMarkup (encode s) = (Markup.Token.cutMarkup s).map Cut.of := by
  unfold Markup.Token.cutMarkup
  split
  · next r =>
    unfold cutMarkup
    simp only [Text.Utf8.isPrefixOf_encode]
    rw [if_pos (show ['!'].isPrefixOf ('!' :: r) from rfl)]
    exact cutDeclaration_encode r
  · rfl
  · next r hclosed =>
    unfold cutMarkup
    simp only [Text.Utf8.isPrefixOf_encode]
    rw [if_neg (not_isPrefixOf_of_ne (by decide) _ _),
      if_neg (not_isPrefixOf fun t ht => hclosed t (List.cons.inj ht).2),
      if_pos (show ['?'].isPrefixOf ('?' :: r) from rfl),
      show (encode ('?' :: r)).drop 1 = encode r from rfl,
      splitAt?_encode (isAscii_of_mem (by decide))]
    cases Markup.splitAt? ['?', '>'] r with
    | none => rfl
    | some split =>
      rcases split with ⟨body, rest⟩
      simp only [Option.map_some, halves, ← Text.Utf8.encode_append]
      rfl
  · next hbang hclosed hquestion =>
    unfold cutMarkup
    simp only [Text.Utf8.isPrefixOf_encode]
    have hnone : ∀ q ∈ (none : Option Char), IsAscii q := nofun
    have hsplit := splitTag?_encode hnone s
    rw [Option.map_none] at hsplit
    rw [if_neg (not_isPrefixOf hbang), if_neg (not_isPrefixOf hclosed),
      if_neg (not_isPrefixOf hquestion), hsplit]
    cases Markup.splitTag? none s with
    | none => rfl
    | some split =>
      rcases split with ⟨content, rest⟩
      simp only [Option.map_some, halves, ofTag_encode, ← Text.Utf8.encode_append]
      rfl

/-- The first slice of the bytes of a text has the bytes of its first token. -/
theorem cut_encode (c : Char) (r : List Char) :
    cut (encode (c :: r)) = (Markup.Token.cut c r).map Cut.of := by
  unfold cut Markup.Token.cut
  rw [Text.Utf8.isPrefixOf_encode]
  simp only [isPrefixOf_single]
  split
  · next hc =>
    rw [hc]
    exact cutMarkup_encode r
  · next hc =>
    have hrun : (fun d => d != '<') c = true := bne_iff_ne.2 hc
    rw [Text.Utf8.takeWhile_encode agree_bracket, Text.Utf8.dropWhile_encode agree_bracket,
      List.takeWhile_cons_of_pos (p := fun d => d != '<') hrun,
      List.dropWhile_cons_of_pos (p := fun d => d != '<') hrun]
    rfl

end Slice

end MasterPackage.Markup
