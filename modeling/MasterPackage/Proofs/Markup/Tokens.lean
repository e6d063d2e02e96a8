import MasterPackage.Markup.Token
import Mathlib.Data.List.TakeWhile

/-!
# The tokens of a text

A text is cut into tokens from the front until it ends.  The end of markup is found
without looking behind it, so a token depends on its own characters alone.  Only a run
of text ends where the text does, and so may be longer in a longer text.

* `spell_of_lexemes?`: the tokens of a text make it up.
* `lexemes?_spell`: the tokens at the front of a text are those of the text they make up.
* `cutShort_of_isPrefix`: a beginning of a text has the first tokens of the text, up to a
  run of text that may be cut short.
-/

namespace MasterPackage.Markup

/-! ## The end of markup is found from the markup alone -/

theorem splitAt?_replace {mark s body rest : List Char} (hne : mark ≠ [])
    (h : splitAt? mark s = some (body, rest)) (x : List Char) :
    splitAt? mark (body ++ (mark ++ x)) = some (body, x) := by
  induction s generalizing body with
  | nil => cases h
  | cons c s ih =>
    have hs := splitAt?_append h
    rw [splitAt?] at h
    split at h
    · cases h
      rcases List.exists_cons_of_ne_nil hne with ⟨d, m, rfl⟩
      have hprefix : (d :: m).isPrefixOf (d :: (m ++ x)) = true :=
        List.isPrefixOf_iff_prefix.2 (List.prefix_append (d :: m) x)
      rw [List.nil_append, List.cons_append, splitAt?, if_pos hprefix, ← List.cons_append,
        List.drop_left]
    · next hmark =>
      simp only [Option.map_eq_some_iff, Prod.mk.injEq, Prod.exists] at h
      rcases h with ⟨b, r, hsplit, rfl, rfl⟩
      -- a mark here would lie within the body and the mark behind it
      have hnot : ¬mark.isPrefixOf (c :: (b ++ (mark ++ x))) := by
        intro hx
        apply hmark
        rw [List.isPrefixOf_iff_prefix] at hx ⊢
        have hwithin : mark <+: (c :: b) ++ mark := by
          apply List.prefix_of_prefix_length_le hx
          · exact ⟨x, by rw [List.append_assoc, List.cons_append]⟩
          · rw [List.length_append]
            omega
        rw [← hs]
        exact hwithin.trans (List.prefix_append _ _)
      rw [List.cons_append, splitAt?, if_neg hnot, ih hsplit]
      rfl

theorem splitTag?_replace {quote : Option Char} {s body rest : List Char}
    (h : splitTag? quote s = some (body, rest)) (x : List Char) :
    splitTag? quote (body ++ '>' :: x) = some (body, x) := by
  induction s generalizing quote body with
  | nil => cases quote <;> cases h
  | cons c s ih =>
    cases quote with
    | none =>
      rw [splitTag?] at h
      split at h
      · cases h
        rw [List.nil_append, splitTag?, if_pos rfl]
      · next hc =>
        simp only [Option.map_eq_some_iff, Prod.mk.injEq, Prod.exists] at h
        rcases h with ⟨b, r, hsplit, rfl, rfl⟩
        rw [List.cons_append, splitTag?, if_neg hc, ih hsplit]
        rfl
    | some q =>
      rw [splitTag?] at h
      simp only [Option.map_eq_some_iff, Prod.mk.injEq, Prod.exists] at h
      rcases h with ⟨b, r, hsplit, rfl, rfl⟩
      rw [List.cons_append, splitTag?, ih hsplit]
      rfl

theorem splitDeclaration?_replace {depth : Nat} {s body rest : List Char}
    (h : splitDeclaration? depth s = some (body, rest)) (x : List Char) :
    splitDeclaration? depth (body ++ '>' :: x) = some (body, x) := by
  induction s generalizing depth body with
  | nil => cases h
  | cons c s ih =>
    rw [splitDeclaration?] at h
    split at h
    · next hend =>
      cases h
      rw [List.nil_append, splitDeclaration?, if_pos ⟨rfl, hend.2⟩]
    · next hc =>
      simp only [Option.map_eq_some_iff, Prod.mk.injEq, Prod.exists] at h
      rcases h with ⟨b, r, hsplit, rfl, rfl⟩
      rw [List.cons_append, splitDeclaration?, if_neg hc]
      simp only [ih hsplit, Option.map_some]

/-- A token whose characters end with `>`, and are cut off as that token behind the
given ones whatever follows. -/
def Token.Stands (cutter : List Char → Except Fault Cut) (before : List Char) (t : Cut) : Prop :=
  ∃ w, t.chars = before ++ (w ++ ['>']) ∧
    ∀ x, cutter (w ++ '>' :: x) = .ok ⟨t.token, t.chars, x⟩

theorem Token.stands_of_cutDeclaration {s : List Char} {t : Cut} (h : cutDeclaration s = .ok t) :
    Stands cutDeclaration ['<', '!'] t := by
  unfold cutDeclaration at h
  split at h
  · next r =>
    split at h
    · next body rest hsplit =>
      cases h
      refine ⟨'-' :: '-' :: (body ++ ['-', '-']), by simp, fun x => ?_⟩
      have hx := splitAt?_replace (by simp) hsplit x
      simp only [List.cons_append, List.nil_append] at hx
      simp only [List.cons_append, List.append_assoc, List.nil_append, cutDeclaration, hx]
    · cases h
  · cases h
  · next r =>
    split at h
    · next body rest hsplit =>
      cases h
      refine ⟨'[' :: 'C' :: 'D' :: 'A' :: 'T' :: 'A' :: '[' :: (body ++ [']', ']']), by simp,
        fun x => ?_⟩
      have hx := splitAt?_replace (by simp) hsplit x
      simp only [List.cons_append, List.nil_append] at hx
      simp only [List.cons_append, List.append_assoc, List.nil_append, cutDeclaration, hx]
    · cases h
  · cases h
  · next c r _ hdash _ hbracket =>
    split at h
    · next hc =>
      split at h
      · next body rest hsplit =>
        split at h
        · next hkeyword =>
          split at h
          · cases h
          · next hname =>
            cases h
            refine ⟨body, rfl, fun x => ?_⟩
            have hx := splitDeclaration?_replace hsplit x
            have hbody := splitDeclaration?_append hsplit
            have hne : body ≠ [] := by
              rintro rfl
              cases hbody
              rcases hc with hc | hc <;> cases hc
            rcases List.exists_cons_of_ne_nil hne with ⟨d, tail, rfl⟩
            cases hbody
            rw [List.cons_append] at hx ⊢
            rw [cutDeclaration]
            · simp only [if_pos hc, hx, if_pos hkeyword, if_neg hname]
            · intro _ hd _
              exact hdash hd
            · intro hd
              exact hdash hd
            · intro _ hd _
              exact hbracket hd
            · intro hd
              exact hbracket hd
        · cases h
      · cases h
    · cases h
  · cases h

theorem Token.stands_of_cutMarkup {s : List Char} {t : Cut} (h : cutMarkup s = .ok t) :
    Stands cutMarkup ['<'] t := by
  unfold cutMarkup at h
  split at h
  · next r =>
    rcases stands_of_cutDeclaration h with ⟨w, hchars, hx⟩
    exact ⟨'!' :: w, hchars, hx⟩
  · cases h
  · next r hclosed =>
    split at h
    · next body rest hsplit =>
      cases h
      refine ⟨'?' :: (body ++ ['?']), by simp, fun x => ?_⟩
      have hx := splitAt?_replace (by simp) hsplit x
      simp only [List.cons_append, List.nil_append] at hx
      simp only [List.cons_append, List.append_assoc, List.nil_append]
      rw [cutMarkup]
      · simp only [hx]
      · intro tail htail
        cases body with
        | nil => cases htail
        | cons c body =>
          cases htail
          have := splitAt?_append hsplit
          exact hclosed _ this.symm
    · cases h
  · next hbang _ hquestion =>
    split at h
    · next content rest hsplit =>
      cases h
      refine ⟨content, rfl, fun x => ?_⟩
      have hx := splitTag?_replace hsplit x
      have hs := splitTag?_append hsplit
      have hhead : (content ++ '>' :: x).head? = s.head? := by
        rw [← hs]
        cases content <;> rfl
      have hother {c : Char} {tail : List Char} (htail : content ++ '>' :: x = c :: tail) :
          ∃ r, s = c :: r := by
        rw [htail] at hhead
        exact List.head?_eq_some_iff.1 hhead.symm
      rw [cutMarkup]
      · simp only [hx]
      · intro tail htail
        exact (hother htail).elim hbang
      · intro tail htail
        exact (hother htail).elim hquestion
      · intro tail htail
        exact (hother htail).elim hquestion
    · cases h

/-- A run of text ends where markup begins, or at the end. -/
theorem Token.dropWhile_text {r x : List Char} (hx : x <+: r.dropWhile (· != '<')) :
    x.takeWhile (· != '<') = [] ∧ x.dropWhile (· != '<') = x := by
  cases x with
  | nil => exact ⟨rfl, rfl⟩
  | cons d x =>
    rcases hx with ⟨y, hy⟩
    have hnot := List.head?_dropWhile_not (· != '<') r
    rw [← hy, List.cons_append, List.head?_cons] at hnot
    have hd : ¬(d != '<') = true := Bool.eq_false_iff.1 hnot
    exact ⟨List.takeWhile_cons_of_neg hd, List.dropWhile_cons_of_neg hd⟩

/-- A token is cut off in the same way before any beginning of what follows it. -/
theorem Token.cut_replace {c : Char} {r : List Char} {t : Cut} (h : cut c r = .ok t)
    {x : List Char} (hx : x <+: t.rest) :
    ∃ w, t.chars = c :: w ∧ cut c (w ++ x) = .ok ⟨t.token, t.chars, x⟩ := by
  unfold cut at h ⊢
  split at h
  · next hc =>
    rcases stands_of_cutMarkup h with ⟨w, hchars, hcut⟩
    refine ⟨w ++ ['>'], by rw [hchars, hc]; rfl, ?_⟩
    rw [if_pos hc, List.append_assoc]
    exact hcut x
  · next hc =>
    cases h
    refine ⟨r.takeWhile (· != '<'), rfl, ?_⟩
    have hrun : ∀ d ∈ r.takeWhile (· != '<'), (d != '<') = true :=
      List.all_eq_true.1 List.all_takeWhile
    rcases dropWhile_text hx with ⟨htake, hdrop⟩
    rw [if_neg hc, List.takeWhile_append_of_pos hrun, List.dropWhile_append_of_pos hrun, htake,
      hdrop, List.append_nil]

/-- The first token of a beginning of a text is the first token of the text, or both are
runs of text and the shorter one reaches up to the end. -/
theorem Token.cut_of_isPrefix {c : Char} {r r' : List Char} {t t' : Cut} (h : cut c r = .ok t)
    (h' : cut c r' = .ok t') (hr : r' <+: r) :
    (t'.token = t.token ∧ t'.chars = t.chars ∧ t'.rest <+: t.rest) ∨
      (t.token = .text t.chars ∧ t'.token = .text t'.chars ∧ t'.chars <+: t.chars ∧
        t'.rest = []) := by
  rcases hr with ⟨y, rfl⟩
  unfold cut at h h'
  split at h
  · next hc =>
    rw [if_pos hc] at h'
    rcases stands_of_cutMarkup h' with ⟨w, hchars, hcut⟩
    -- the markup is found again in the longer text
    have hr' : r' = w ++ '>' :: t'.rest := by
      simpa [hchars] using (cutMarkup_append h').symm
    rw [hr', List.append_assoc, List.cons_append, hcut] at h
    cases h
    exact .inl ⟨rfl, rfl, List.prefix_append _ _⟩
  · next hc =>
    rw [if_neg hc] at h'
    cases h
    cases h'
    by_cases hrun : r'.takeWhile (· != '<') = r'
    · have hall := List.takeWhile_eq_self_iff.1 hrun
      refine .inr ⟨rfl, rfl, ?_, List.dropWhile_eq_nil_iff.2 hall⟩
      dsimp only
      rw [hrun, List.takeWhile_append_of_pos hall]
      exact List.prefix_append (c :: r') _
    · have hlength : ¬(r'.takeWhile (· != '<')).length = r'.length := fun hlength =>
        hrun ((List.takeWhile_prefix _).eq_of_length hlength)
      have hstop : ¬(r'.dropWhile (· != '<')).isEmpty := fun hempty =>
        hrun (List.takeWhile_eq_self_iff.2
          (List.dropWhile_eq_nil_iff.1 (List.isEmpty_iff.1 hempty)))
      rw [List.takeWhile_append, if_neg hlength, List.dropWhile_append, if_neg hstop]
      exact .inl ⟨rfl, rfl, List.prefix_append _ _⟩

/-! ## The tokens of a text -/

/-- A token of a text and the characters it takes there. -/
structure Lexeme where
  token : Token
  chars : List Char

/-- A run of text as it stands. -/
def Lexeme.text (raw : List Char) : Lexeme := ⟨.text raw, raw⟩

/-- The tokens of a text, if it can be cut into tokens up to its end. -/
def lexemes? (s : List Char) : Option (List Lexeme) :=
  match s with
  | [] => some []
  | c :: r =>
    match _h : Token.cut c r with
    | .error _ => none
    | .ok t => (lexemes? t.rest).map fun ls => ⟨t.token, t.chars⟩ :: ls
termination_by s.length
decreasing_by exact Token.cut_rest_length _h

/-- The text that tokens make up. -/
def spell (ls : List Lexeme) : List Char := ls.flatMap Lexeme.chars

theorem spell_cons (l : Lexeme) (ls : List Lexeme) : spell (l :: ls) = l.chars ++ spell ls := rfl

theorem spell_append (a b : List Lexeme) : spell (a ++ b) = spell a ++ spell b :=
  List.flatMap_append

theorem lexemes?_nil : lexemes? [] = some [] := by rw [lexemes?]

theorem lexemes?_cons {c : Char} {r : List Char} {t : Token.Cut} (h : Token.cut c r = .ok t) :
    lexemes? (c :: r) = (lexemes? t.rest).map fun ls => ⟨t.token, t.chars⟩ :: ls := by
  rw [lexemes?]
  split
  · next hf =>
    rw [h] at hf
    cases hf
  · next t' ht =>
    rw [h] at ht
    cases ht
    rfl

theorem eq_nil_of_lexemes? {s : List Char} (h : lexemes? s = some []) : s = [] := by
  cases s with
  | nil => rfl
  | cons c r =>
    rw [lexemes?] at h
    split at h
    · cases h
    · rcases Option.map_eq_some_iff.1 h with ⟨more, -, hmore⟩
      cases hmore

/-- The first token is cut off, and the others are those of the rest. -/
theorem exists_of_lexemes?_cons {s : List Char} {l : Lexeme} {ls : List Lexeme}
    (h : lexemes? s = some (l :: ls)) :
    ∃ c r rest, s = c :: r ∧ Token.cut c r = .ok ⟨l.token, l.chars, rest⟩ ∧
      lexemes? rest = some ls := by
  cases s with
  | nil =>
    rw [lexemes?_nil] at h
    cases h
  | cons c r =>
    rw [lexemes?] at h
    split at h
    · cases h
    · next t hcut =>
      rcases Option.map_eq_some_iff.1 h with ⟨more, hmore, hls⟩
      cases hls
      exact ⟨c, r, t.rest, rfl, hcut, hmore⟩

theorem spell_of_lexemes? {s : List Char} {ls : List Lexeme} (h : lexemes? s = some ls) :
    spell ls = s := by
  induction ls generalizing s with
  | nil => exact (eq_nil_of_lexemes? h).symm
  | cons l ls ih =>
    rcases exists_of_lexemes?_cons h with ⟨c, r, rest, rfl, hcut, hrest⟩
    rw [spell_cons, ih hrest]
    exact Token.cut_append hcut

/-- The tokens at the front of a text are the tokens of the text that they make up. -/
theorem lexemes?_spell {s : List Char} {front back : List Lexeme}
    (h : lexemes? s = some (front ++ back)) : lexemes? (spell front) = some front := by
  induction front generalizing s with
  | nil => exact lexemes?_nil
  | cons l front ih =>
    rcases exists_of_lexemes?_cons h with ⟨c, r, rest, rfl, hcut, hrest⟩
    have hfront : spell front <+: rest := by
      rw [← spell_of_lexemes? hrest]
      exact ⟨spell back, (spell_append front back).symm⟩
    rcases Token.cut_replace hcut hfront with ⟨w, hchars, hagain⟩
    rw [spell_cons, show l.chars = c :: w from hchars, List.cons_append, lexemes?_cons hagain,
      ih hrest]
    rfl

/-- A token of a text is a run of text, or markup between angle brackets. -/
theorem text_or_markup_of_mem {s : List Char} {ls : List Lexeme} (h : lexemes? s = some ls)
    {l : Lexeme} (hl : l ∈ ls) :
    (∃ raw, l = .text raw) ∨ ∃ w, l.chars = '<' :: (w ++ ['>']) := by
  induction ls generalizing s with
  | nil => cases hl
  | cons first ls ih =>
    rcases exists_of_lexemes?_cons h with ⟨c, r, rest, rfl, hcut, hrest⟩
    rcases List.mem_cons.1 hl with rfl | hl
    · unfold Token.cut at hcut
      split at hcut
      · rcases Token.stands_of_cutMarkup hcut with ⟨w, hchars, -⟩
        exact .inr ⟨w, hchars⟩
      · rcases l with ⟨token, chars⟩
        cases hcut
        exact .inl ⟨_, rfl⟩
    · exact ih hrest hl

/-- The tokens of a text, and those of a beginning of it: the same ones up to a place
where the shorter list ends, or where it has part of a run of text. -/
inductive CutShort : List Lexeme → List Lexeme → Prop
  | here (ls : List Lexeme) : CutShort [] ls
  | inText {part raw : List Char} (h : part <+: raw) (ls : List Lexeme) :
    CutShort [.text part] (.text raw :: ls)
  | behind (l : Lexeme) {short ls : List Lexeme} (h : CutShort short ls) :
    CutShort (l :: short) (l :: ls)

/-- What a text is cut into does not change where the text ends earlier. -/
theorem cutShort_of_isPrefix {s cs : List Char} {ls short : List Lexeme}
    (h : lexemes? s = some ls) (hshort : lexemes? cs = some short) (hcs : cs <+: s) :
    CutShort short ls := by
  induction short generalizing s cs ls with
  | nil => exact .here ls
  | cons l' short ih =>
    rcases exists_of_lexemes?_cons hshort with ⟨c, r', rest', rfl, hcut', hrest'⟩
    rcases hcs with ⟨y, rfl⟩
    cases ls with
    | nil => cases eq_nil_of_lexemes? h
    | cons l ls =>
      rcases exists_of_lexemes?_cons h with ⟨_, r, rest, hs, hcut, hrest⟩
      cases hs
      rcases Token.cut_of_isPrefix hcut hcut' (List.prefix_append r' y) with
        ⟨htoken, hchars, hbehind⟩ | ⟨htext, htext', hpart, hend⟩
      · rcases l with ⟨token, chars⟩
        rcases l' with ⟨token', chars'⟩
        cases htoken
        cases hchars
        exact .behind _ (ih hrest hrest' hbehind)
      · rcases l with ⟨token, raw⟩
        rcases l' with ⟨token', part⟩
        dsimp only at htext htext' hpart hend
        subst htext htext' hend
        rw [lexemes?_nil] at hrest'
        cases hrest'
        exact .inText hpart ls

end MasterPackage.Markup
