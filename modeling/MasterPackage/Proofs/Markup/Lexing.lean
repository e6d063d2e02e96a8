import MasterPackage.Proofs.Markup.Source

/-!
# The tokens of a written document

Every piece of a written document is cut off as the token it was meant to be, whatever
stands behind it.  Markup that ends with a mark is cut at the first mark, and the mark
occurs nowhere before (`splitAt?_eq_of_not_infix`); a tag is cut at the first `>`
outside its attribute values (`IsTagBody`).
-/

namespace MasterPackage.Markup

/-- A text begins with a token, and the rest stands behind it. -/
def Begins (t : Token) (s rest : List Char) : Prop :=
  ∃ c r chars, s = c :: r ∧ Token.cut c r = .ok ⟨t, chars, rest⟩

theorem begins_of_cutMarkup {t : Token} {s chars rest : List Char}
    (h : Token.cutMarkup s = .ok ⟨t, chars, rest⟩) : Begins t ('<' :: s) rest :=
  ⟨'<', s, chars, rfl, h⟩

/-! ## Ends with a mark -/

/-- A mark that ends with `>`, and holds it nowhere else, cannot begin inside a text and
end inside the mark behind that text. -/
theorem not_prefix_of_not_infix {m s rest : List Char} (hm : '>' ∉ m) (hne : s ≠ [])
    (hs : ¬(m ++ ['>']) <:+: s) : ¬(m ++ ['>']) <+: s ++ (m ++ '>' :: rest) := by
  intro h
  rcases h with ⟨x, hx⟩
  rcases List.append_eq_append_iff.1 hx with ⟨a, rfl, -⟩ | ⟨a, hmark, htail⟩
  · exact hs (List.infix_append' [] (m ++ ['>']) a)
  rcases List.eq_nil_or_concat a with rfl | ⟨b, c, rfl⟩
  · rw [List.append_nil] at hmark
    exact hs (hmark ▸ List.infix_rfl)
  · -- The mark begins in `s` and ends in the mark behind it, so `>` stands inside `m`.
    rw [List.concat_eq_append, ← List.append_assoc] at hmark
    obtain ⟨hm', hc⟩ := List.append_inj' hmark rfl
    have hlt : b.length < m.length := by
      have := List.length_pos_iff.2 hne
      rw [hm', List.length_append]
      omega
    have hat : m[b.length]? = some '>' := by
      have := congrArg (·[b.length]?) htail
      rw [← List.cons.inj hc |>.1] at this
      simpa [List.getElem?_append_left hlt] using this
    exact hm (List.mem_of_getElem? hat)

/-- Text up to a mark that does not occur in it is cut there. -/
theorem splitAt?_eq_of_not_infix {m s : List Char} (hm : '>' ∉ m) (hs : ¬(m ++ ['>']) <:+: s)
    (rest : List Char) : splitAt? (m ++ ['>']) (s ++ (m ++ '>' :: rest)) = some (s, rest) := by
  induction s with
  | nil =>
    have hmark : m ++ '>' :: rest = (m ++ ['>']) ++ rest := by simp
    obtain ⟨c, tail, htail⟩ := List.exists_cons_of_ne_nil (l := m ++ '>' :: rest) (by simp)
    rw [List.nil_append, htail, splitAt?, ← htail, hmark, if_pos]
    · rw [List.drop_left]
    · exact List.isPrefixOf_iff_prefix.2 (List.prefix_append _ rest)
  | cons c s ih =>
    have hfirst : ¬(m ++ ['>']).isPrefixOf (c :: (s ++ (m ++ '>' :: rest))) := by
      rw [List.isPrefixOf_iff_prefix, ← List.cons_append]
      exact not_prefix_of_not_infix hm (List.cons_ne_nil c s) hs
    have hrest : ¬(m ++ ['>']) <:+: s := fun h => hs (h.trans (List.suffix_cons c s).isInfix)
    rw [List.cons_append, splitAt?, if_neg hfirst, ih hrest]
    rfl

/-- A comment or an instruction is cut off as such. -/
theorem Aside.begins (a : Aside) (rest : List Char) : Begins .aside (a.chars ++ rest) rest := by
  cases a with
  | comment s open_ended =>
    have hsplit := splitAt?_eq_of_not_infix (m := ['-', '-']) (by decide) open_ended rest
    simp only [List.cons_append, List.nil_append] at hsplit
    have hcut : Token.cutMarkup ('!' :: '-' :: '-' :: (s ++ ['-', '-', '>'] ++ rest)) =
        .ok ⟨.aside, '<' :: '!' :: '-' :: '-' :: (s ++ ['-', '-', '>']), rest⟩ := by
      simp only [Token.cutMarkup, Token.cutDeclaration, List.append_assoc, List.cons_append,
        List.nil_append, hsplit]
    exact begins_of_cutMarkup hcut
  | instruction s open_ended no_end =>
    have hsplit := splitAt?_eq_of_not_infix (m := ['?']) (by decide) open_ended rest
    simp only [List.cons_append, List.nil_append] at hsplit
    have hcut : Token.cutMarkup ('?' :: (s ++ ['?', '>'] ++ rest)) =
        .ok ⟨.aside, '<' :: '?' :: (s ++ ['?', '>']), rest⟩ := by
      rw [Token.cutMarkup]
      · simp only [List.append_assoc, List.cons_append, List.nil_append, hsplit]
      · intro tail htail
        cases s with
        | nil => cases htail
        | cons c s => exact no_end (congrArg some (List.cons.inj htail).1)
    exact begins_of_cutMarkup hcut

theorem Aside.head?_chars (a : Aside) (rest : List Char) :
    (a.chars ++ rest).head? = some '<' := by
  cases a <;> rfl

/-- A section is cut off with its text. -/
theorem begins_characters {s : List Char} (open_ended : ¬[']', ']', '>'] <:+: s)
    (rest : List Char) :
    Begins (.characters s)
      ('<' :: '!' :: '[' :: 'C' :: 'D' :: 'A' :: 'T' :: 'A' :: '[' ::
        (s ++ [']', ']', '>']) ++ rest) rest := by
  have hsplit := splitAt?_eq_of_not_infix (m := [']', ']']) (by decide) open_ended rest
  simp only [List.cons_append, List.nil_append] at hsplit
  have hcut : Token.cutMarkup ('!' :: '[' :: 'C' :: 'D' :: 'A' :: 'T' :: 'A' :: '[' ::
      (s ++ [']', ']', '>'] ++ rest)) =
        .ok ⟨.characters s, '<' :: '!' :: '[' :: 'C' :: 'D' :: 'A' :: 'T' :: 'A' :: '[' ::
          (s ++ [']', ']', '>']), rest⟩ := by
    simp only [Token.cutMarkup, Token.cutDeclaration, List.append_assoc, List.cons_append,
      List.nil_append, hsplit]
  exact begins_of_cutMarkup hcut

/-- A run of text is cut off where markup begins, or at the end. -/
theorem begins_text {s rest : List Char} (hne : s ≠ []) (hs : ∀ d ∈ s, d ≠ '<')
    (hrest : rest = [] ∨ rest.head? = some '<') : Begins (.text s) (s ++ rest) rest := by
  cases s with
  | nil => exact absurd rfl hne
  | cons c s =>
    have hinside : ∀ d ∈ s, (d != '<') = true := fun d hd => by
      simpa using hs d (List.mem_cons_of_mem c hd)
    have htake : rest.takeWhile (· != '<') = [] ∧ rest.dropWhile (· != '<') = rest := by
      rcases hrest with rfl | hrest
      · exact ⟨rfl, rfl⟩
      · obtain ⟨tail, rfl⟩ := List.head?_eq_some_iff.1 hrest
        exact ⟨List.takeWhile_cons_of_neg (by decide), List.dropWhile_cons_of_neg (by decide)⟩
    refine ⟨c, s ++ rest, c :: s, rfl, ?_⟩
    rw [Token.cut, if_neg (hs c (List.mem_cons_self ..))]
    rw [List.takeWhile_append_of_pos hinside, List.dropWhile_append_of_pos hinside]
    rw [htake.1, htake.2, List.append_nil]

/-! ## Names -/

/-- A character of a full name belongs to one of its parts, or is the colon between. -/
theorem FullName.mem_chars {n : FullName} {c : Char} (hc : c ∈ n.chars) :
    isNameChar c = true ∨ c = ':' := by
  obtain ⟨space, part⟩ := n
  cases space with
  | none => exact .inl (part.isNameChar_of_mem c hc)
  | some space =>
    rcases List.mem_append.1 hc with hspace | hrest
    · exact .inl (space.isNameChar_of_mem c hspace)
    rcases List.mem_cons.1 hrest with hcolon | hpart
    · exact .inr hcolon
    · exact .inl (part.isNameChar_of_mem c hpart)

theorem FullName.not_isTagSpace {n : FullName} {c : Char} (hc : c ∈ n.chars) :
    isTagSpace c = false := by
  rcases n.mem_chars hc with h | rfl
  · simp only [isNameChar, Bool.and_eq_true, Bool.not_eq_true'] at h
    exact h.1
  · decide

theorem FullName.not_special {n : FullName} {c : Char} (hc : c ∈ n.chars) :
    c ∉ ['\'', '"', '<', '>', '/'] := by
  rcases n.mem_chars hc with h | rfl
  · simp only [isNameChar, nameStops, Bool.and_eq_true, Bool.not_eq_true', List.contains_eq_mem,
      decide_eq_false_iff_not, List.mem_cons, List.not_mem_nil, or_false, not_or] at h ⊢
    exact ⟨h.2.1, h.2.2.1, h.2.2.2.1, h.2.2.2.2.1, h.2.2.2.2.2.1⟩
  · decide

/-- A full name has a first character, which no other markup begins with. -/
theorem FullName.exists_cons (n : FullName) : ∃ c cs, n.chars = c :: cs ∧ c ≠ '!' ∧ c ≠ '?' := by
  have hname (a : Name) : ∃ c cs, a.chars = c :: cs ∧ c ≠ '!' ∧ c ≠ '?' := by
    obtain ⟨c, cs, hcs⟩ := List.exists_cons_of_ne_nil a.ne_nil
    have hbang := a.no_bang
    have hquestion := a.no_question
    rw [hcs, List.head?_cons] at hbang hquestion
    exact ⟨c, cs, hcs, fun h => hbang (congrArg some h), fun h => hquestion (congrArg some h)⟩
  obtain ⟨space, part⟩ := n
  cases space with
  | none => exact hname part
  | some space =>
    obtain ⟨c, cs, hcs, hc⟩ := hname space
    refine ⟨c, cs ++ ':' :: part.chars, ?_, hc⟩
    simp only [FullName.chars, hcs, List.cons_append]

theorem Name.ne_colon {a : Name} : ∀ c ∈ a.chars, (c != ':') = true := by
  intro c hc
  have h := a.isNameChar_of_mem c hc
  simp only [isNameChar, nameStops, Bool.and_eq_true, Bool.not_eq_true', List.contains_eq_mem,
    decide_eq_false_iff_not, List.mem_cons, List.not_mem_nil, or_false, not_or] at h
  exact bne_iff_ne.2 h.2.2.2.2.2.2

/-- The local part of a full name is its part behind the prefix. -/
theorem FullName.localName_chars (n : FullName) :
    String.ofList (localName n.chars) = n.localPart := by
  obtain ⟨space, part⟩ := n
  cases space with
  | none =>
    have hdrop : (part.chars ++ []).dropWhile (· != ':') = [].dropWhile (· != ':') :=
      List.dropWhile_append_of_pos part.ne_colon
    rw [List.append_nil, List.dropWhile_nil] at hdrop
    simp only [localName, FullName.chars, hdrop, FullName.localPart]
  | some space =>
    have hdrop : (space.chars ++ ':' :: part.chars).dropWhile (· != ':') = ':' :: part.chars := by
      rw [List.dropWhile_append_of_pos space.ne_colon]
      exact List.dropWhile_cons_of_neg (by decide)
    simp only [localName, FullName.chars, hdrop, FullName.localPart]

/-! ## Tags -/

/-- A text that holds the end of a tag nowhere outside its quoted values, and closes all
of these. -/
def IsTagBody (s : List Char) : Prop :=
  ∀ rest, splitTag? none (s ++ rest) = (splitTag? none rest).map fun (b, r) => (s ++ b, r)

theorem isTagBody_append {a b : List Char} (ha : IsTagBody a) (hb : IsTagBody b) :
    IsTagBody (a ++ b) := by
  intro rest
  rw [List.append_assoc, ha, hb, Option.map_map]
  simp [Function.comp_def]

theorem isTagBody_flatMap {α : Type} {f : α → List Char} {l : List α}
    (h : ∀ a, IsTagBody (f a)) : IsTagBody (l.flatMap f) := by
  induction l with
  | nil =>
    intro rest
    simp
  | cons a l ih => exact isTagBody_append (h a) ih

/-- Characters that neither end a tag nor begin a quoted value. -/
theorem isTagBody_of_plain {s : List Char} (h : ∀ c ∈ s, c ∉ ['\'', '"', '>']) : IsTagBody s := by
  intro rest
  induction s with
  | nil => simp
  | cons c s ih =>
    have hc := h c (List.mem_cons_self ..)
    simp only [List.mem_cons, List.not_mem_nil, or_false, not_or] at hc
    have hquote : ¬(c = '\'' ∨ c = '"') := by
      intro h
      rcases h with h | h
      · exact hc.1 h
      · exact hc.2.1 h
    rw [List.cons_append, splitTag?, if_neg hc.2.2, if_neg hquote]
    rw [ih fun d hd => h d (List.mem_cons_of_mem c hd), Option.map_map]
    rfl

theorem Blanks.isTagBody (g : Blanks) : IsTagBody g.chars := by
  refine isTagBody_of_plain fun c hc hmem => ?_
  have hspace := g.isTagSpace_of_mem c hc
  simp only [List.mem_cons, List.not_mem_nil, or_false] at hmem
  rcases hmem with rfl | rfl | rfl <;> exact absurd hspace (by decide)

theorem FullName.isTagBody (n : FullName) : IsTagBody n.chars := by
  refine isTagBody_of_plain fun c hc hmem => n.not_special hc ?_
  simp only [List.mem_cons, List.not_mem_nil, or_false] at hmem ⊢
  rcases hmem with rfl | rfl | rfl <;> simp

/-- Inside a quoted value everything is passed over up to the mark that closes it. -/
theorem splitTag?_quoted {q : Char} {value : List Char} (hq : q ∉ value) (rest : List Char) :
    splitTag? (some q) (value ++ q :: rest) =
      (splitTag? none rest).map fun (b, r) => (value ++ q :: b, r) := by
  induction value with
  | nil => rw [List.nil_append, splitTag?, if_pos rfl]; rfl
  | cons c value ih =>
    have hc : c ≠ q := fun h => hq (h ▸ List.mem_cons_self ..)
    have hvalue : q ∉ value := fun h => hq (List.mem_cons_of_mem c h)
    rw [List.cons_append, splitTag?, if_neg hc, ih hvalue, Option.map_map]
    rfl

theorem Attribute.isTagBody_quoted (a : Attribute) : IsTagBody a.quoted := by
  intro rest
  have hquote : a.quote.char ≠ '>' ∧ (a.quote.char = '\'' ∨ a.quote.char = '"') := by
    cases a.quote <;> decide
  rw [quoted, List.cons_append, splitTag?, if_neg hquote.1, if_pos hquote.2]
  rw [List.append_assoc, List.singleton_append, splitTag?_quoted a.quote_notMem, Option.map_map]
  simp [Function.comp_def]

theorem Attribute.isTagBody (a : Attribute) : IsTagBody a.chars := by
  have hequals : IsTagBody ['='] := isTagBody_of_plain (by simp)
  refine isTagBody_append a.gap.isTagBody (isTagBody_append a.name.isTagBody ?_)
  exact isTagBody_append a.before.isTagBody
    (isTagBody_append hequals (isTagBody_append a.after.isTagBody a.isTagBody_quoted))

theorem Tag.isTagBody (t : Tag) : IsTagBody t.chars :=
  isTagBody_append t.name.isTagBody
    (isTagBody_append (isTagBody_flatMap Attribute.isTagBody) t.gap.isTagBody)

/-- Markup that begins like a tag is cut off as a tag. -/
theorem begins_tag {content : List Char} (hbody : IsTagBody content)
    (hfirst : ∃ c cs, content = c :: cs ∧ c ≠ '!' ∧ c ≠ '?') (rest : List Char) :
    Begins (.ofTag content) ('<' :: (content ++ '>' :: rest)) rest := by
  have hsplit : splitTag? none (content ++ '>' :: rest) = some (content, rest) := by
    rw [hbody, splitTag?, if_pos rfl, Option.map_some]
    simp only [List.append_nil]
  obtain ⟨c, cs, rfl, hbang, hquestion⟩ := hfirst
  have hcut : Token.cutMarkup (c :: cs ++ '>' :: rest) =
      .ok ⟨.ofTag (c :: cs), '<' :: (c :: cs ++ ['>']), rest⟩ := by
    rw [Token.cutMarkup]
    · rw [hsplit]
    · intro tail htail
      exact hbang (List.cons.inj htail).1
    · intro tail htail
      exact hquestion (List.cons.inj htail).1
    · intro tail htail
      exact hquestion (List.cons.inj htail).1
  exact begins_of_cutMarkup hcut

/-- Behind the name of a start tag there is a blank or nothing. -/
theorem Tag.takeWhile_behind_name (t : Tag) :
    (t.attributes.flatMap Attribute.chars ++ t.gap.chars).takeWhile (fun c => !isTagSpace c) =
      [] := by
  have hblank {g : Blanks} {c : Char} {cs : List Char} (hg : g.chars = c :: cs) :
      isTagSpace c = true := g.isTagSpace_of_mem c (hg ▸ List.mem_cons_self ..)
  cases hattributes : t.attributes with
  | nil =>
    cases hgap : t.gap.chars with
    | nil => rfl
    | cons c cs => exact List.takeWhile_cons_of_neg (by simp [hblank hgap])
  | cons a attributes =>
    obtain ⟨c, cs, hcs⟩ := List.exists_cons_of_ne_nil a.gap_ne_nil
    rw [List.flatMap_cons, Attribute.chars, hcs]
    exact List.takeWhile_cons_of_neg (by simp [hblank hcs])

theorem Tag.tagName_chars (t : Tag) : tagName t.chars = t.name.chars := by
  rw [tagName, Tag.chars, List.takeWhile_append_of_pos, t.takeWhile_behind_name, List.append_nil]
  intro c hc
  rw [t.name.not_isTagSpace hc]
  rfl

theorem getLast?_append_ne {a b : List Char} (ha : a.getLast? ≠ some '/')
    (hb : b.getLast? ≠ some '/') : (a ++ b).getLast? ≠ some '/' := by
  rw [List.getLast?_append]
  cases h : b.getLast? with
  | none => exact ha
  | some c => rwa [h] at hb

theorem getLast?_ne_of_notMem {s : List Char} (h : '/' ∉ s) : s.getLast? ≠ some '/' :=
  fun hs => h (List.mem_of_getLast? hs)

/-- A start tag does not end like the tag of an element without content. -/
theorem Tag.getLast?_ne (t : Tag) : t.chars.getLast? ≠ some '/' := by
  have hname : '/' ∉ t.name.chars := fun h => t.name.not_special h (by simp)
  have hgap : '/' ∉ t.gap.chars := fun h => absurd (t.gap.isTagSpace_of_mem _ h) (by decide)
  have hattribute (a : Attribute) : a.chars.getLast? ≠ some '/' := by
    have hquote : a.quote.char ≠ '/' := by cases a.quote <;> decide
    have hlast : a.chars.getLast? = some a.quote.char := by
      rw [Attribute.chars, Attribute.quoted]
      simp only [← List.cons_append, ← List.append_assoc]
      exact List.getLast?_concat
    rw [hlast]
    exact fun h => hquote (Option.some.inj h)
  refine getLast?_append_ne (getLast?_ne_of_notMem hname)
    (getLast?_append_ne ?_ (getLast?_ne_of_notMem hgap))
  induction t.attributes with
  | nil => simp
  | cons a attributes ih => exact getLast?_append_ne (hattribute a) ih

theorem Tag.exists_cons (t : Tag) :
    ∃ c cs, t.chars = c :: cs ∧ c ≠ '!' ∧ c ≠ '?' ∧ c ≠ '/' := by
  obtain ⟨c, cs, hcs, hbang, hquestion⟩ := t.name.exists_cons
  refine ⟨c, cs ++ (t.attributes.flatMap Attribute.chars ++ t.gap.chars), ?_, hbang, hquestion, ?_⟩
  · rw [Tag.chars, hcs, List.cons_append]
  · rintro rfl
    exact t.name.not_special (hcs ▸ List.mem_cons_self ..) (by simp)

/-- The start tag of an element is cut off as such. -/
theorem Tag.begins_open (t : Tag) (rest : List Char) :
    Begins (.start t.name.chars false) (t.open ++ rest) rest := by
  obtain ⟨c, cs, hcs, hbang, hquestion, hslash⟩ := t.exists_cons
  have htoken : Token.ofTag t.chars = .start t.name.chars false := by
    have hlast := t.getLast?_ne
    rw [← t.tagName_chars]
    rw [hcs] at hlast ⊢
    rw [Token.ofTag, if_neg hlast]
    intro tail htail
    exact hslash (List.cons.inj htail).1
  have hbegins := begins_tag t.isTagBody ⟨c, cs, hcs, hbang, hquestion⟩ rest
  rw [htoken] at hbegins
  rw [Tag.open, List.cons_append, List.append_assoc]
  exact hbegins

/-- The only tag of an element without content is cut off as such. -/
theorem Tag.begins_only (t : Tag) (rest : List Char) :
    Begins (.start t.name.chars true) (t.only ++ rest) rest := by
  obtain ⟨c, cs, hcs, hbang, hquestion, hslash⟩ := t.exists_cons
  have hcons : t.chars ++ ['/'] = c :: (cs ++ ['/']) := by rw [hcs, List.cons_append]
  have htoken : Token.ofTag (t.chars ++ ['/']) = .start t.name.chars true := by
    have hlast : (t.chars ++ ['/']).getLast? = some '/' := List.getLast?_concat
    have hname : tagName (t.chars ++ ['/']).dropLast = t.name.chars := by
      rw [List.dropLast_concat, t.tagName_chars]
    rw [← hname]
    rw [hcons] at hlast ⊢
    rw [Token.ofTag, if_pos hlast]
    intro tail htail
    exact hslash (List.cons.inj htail).1
  have hbody : IsTagBody (t.chars ++ ['/']) :=
    isTagBody_append t.isTagBody (isTagBody_of_plain (by simp))
  have hbegins := begins_tag hbody ⟨c, _, hcons, hbang, hquestion⟩ rest
  rw [htoken] at hbegins
  rw [Tag.only, List.cons_append, List.append_assoc]
  rw [List.append_assoc] at hbegins
  exact hbegins

/-- The blanks behind the name in an end tag do not belong to the name. -/
theorem trimEnd_append (n : FullName) (gap : Blanks) :
    trimEnd (n.chars ++ gap.chars) = n.chars := by
  have hgap : ∀ c ∈ gap.chars.reverse, isTagSpace c = true :=
    fun c hc => gap.isTagSpace_of_mem c (List.mem_reverse.1 hc)
  have hreverse : (n.chars ++ gap.chars).reverse.dropWhile isTagSpace = n.chars.reverse := by
    rw [List.reverse_append, List.dropWhile_append_of_pos hgap]
    cases hlast : n.chars.reverse with
    | nil => rfl
    | cons c cs =>
      have hc : c ∈ n.chars := List.mem_reverse.1 (hlast ▸ List.mem_cons_self ..)
      exact List.dropWhile_cons_of_neg (by simp [n.not_isTagSpace hc])
  rw [trimEnd, hreverse]
  split
  · next hnil =>
    obtain ⟨c, cs, hcs, -⟩ := n.exists_cons
    rw [hcs] at hnil
    simp at hnil
  · exact List.reverse_reverse n.chars

/-- The end tag of an element is cut off with the full name in it. -/
theorem Tag.begins_close (t : Tag) (gap : Blanks) (rest : List Char) :
    Begins (.finish t.name.chars) (t.close gap ++ rest) rest := by
  have hbody : IsTagBody ('/' :: (t.name.chars ++ gap.chars)) := by
    have hslash : IsTagBody ['/'] := isTagBody_of_plain (by simp)
    exact isTagBody_append hslash (isTagBody_append t.name.isTagBody gap.isTagBody)
  have hbegins := begins_tag hbody ⟨'/', _, rfl, by decide, by decide⟩ rest
  rw [Token.ofTag, trimEnd_append] at hbegins
  simpa only [Tag.close, List.cons_append, List.append_assoc, List.nil_append] using hbegins

end MasterPackage.Markup
