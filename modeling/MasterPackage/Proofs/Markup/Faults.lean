import MasterPackage.Proofs.Markup.Misfits

/-!
# Where reading stops at a fault

Reading a document stops at the first fault.  A fault is in the text itself, where no token can
be cut off, or in a token that does not fit behind those before it, or the text ends inside an
element.
-/

namespace MasterPackage.Markup

/-! ## Where a fault is found -/

/-- The tokens at the front of a text, cut one after the other, and the text they leave. -/
inductive Lexes : List Char → List Lexeme → List Char → Prop
  | stop (s : List Char) : Lexes s [] s
  | token {c : Char} {r : List Char} {t : Token.Cut} {ls : List Lexeme} {rest : List Char}
    (h : Token.cut c r = .ok t) (more : Lexes t.rest ls rest) :
    Lexes (c :: r) (⟨t.token, t.chars⟩ :: ls) rest

/-- A longest run of text: it holds no angle bracket, and one stands behind it, or nothing. -/
structure IsRun (raw behind : List Char) : Prop where
  ne_nil : raw ≠ []
  no_bracket : '<' ∉ raw
  ends : behind = [] ∨ behind.head? = some '<'

/-- What stands where a fault is found: the text from that place on. -/
inductive Progress.FaultAt (p : Progress) : List Char → Fault → Prop
  /-- The text ends, and an element is open. -/
  | unclosed {u : Unfinished} {more : List Unfinished} (h : p.builder.opened = u :: more) :
    FaultAt p [] (.unclosed u.name)
  /-- Markup that does not end, or that is of no kind. -/
  | markup {r : List Char} {f : Fault} (h : Token.cutMarkup r = .error f) : FaultAt p ('<' :: r) f
  /-- Markup that does not fit here. -/
  | tag {r : List Char} {t : Token.Cut} {f : Fault} (h : Token.cutMarkup r = .ok t)
    (hf : p.Misfit t.token f) : FaultAt p ('<' :: r) f
  /-- Text that does not fit here, or whose references are bad. -/
  | run {raw behind : List Char} {f : Fault} (h : IsRun raw behind)
    (hf : p.Misfit (.text raw) f) : FaultAt p (raw ++ behind) f

/-- Reading the text stops at a fault, with so many bytes of tokens in front of it. -/
def Progress.StopsAt (p : Progress) (s : List Char) (k : Nat) (f : Fault) : Prop :=
  ∃ ls q behind, Lexes s ls behind ∧ p.Runs ls q ∧ k = Text.Utf8.width (spell ls) ∧
    q.FaultAt behind f

theorem Lexes.append {s rest : List Char} {ls : List Lexeme} (h : Lexes s ls rest) :
    spell ls ++ rest = s := by
  induction h with
  | stop s => rfl
  | token hcut _ ih =>
    rw [spell_cons, List.append_assoc, ih]
    exact Token.cut_append hcut

theorem Token.cut_bracket (r : List Char) : cut '<' r = cutMarkup r := if_pos rfl

/-- A longest run of text is cut off as one token. -/
theorem IsRun.cut {raw behind : List Char} (h : IsRun raw behind) :
    ∃ c r, raw ++ behind = c :: r ∧ Token.cut c r = .ok ⟨.text raw, raw, behind⟩ := by
  rcases List.exists_cons_of_ne_nil h.ne_nil with ⟨c, tail, rfl⟩
  refine ⟨c, tail ++ behind, rfl, ?_⟩
  have hc : c ≠ '<' := fun hc => h.no_bracket (hc ▸ List.mem_cons_self)
  have hrun : ∀ d ∈ tail, (d != '<') = true := by
    intro d hd
    rw [bne_iff_ne]
    rintro rfl
    exact h.no_bracket (List.mem_cons_of_mem c hd)
  have hbehind : behind.takeWhile (· != '<') = [] ∧ behind.dropWhile (· != '<') = behind := by
    rcases h.ends with rfl | hhead
    · exact ⟨rfl, rfl⟩
    · rcases List.head?_eq_some_iff.1 hhead with ⟨more, rfl⟩
      exact ⟨rfl, rfl⟩
  rw [Token.cut, if_neg hc, List.takeWhile_append_of_pos hrun, List.dropWhile_append_of_pos hrun,
    hbehind.1, hbehind.2, List.append_nil]

/-- What is cut off in front of other characters than `<` is a longest run of text. -/
theorem Token.exists_run_of_cut {c : Char} {r : List Char} {t : Cut} (h : cut c r = .ok t)
    (hc : c ≠ '<') :
    ∃ raw behind, IsRun raw behind ∧ c :: r = raw ++ behind ∧ t = ⟨.text raw, raw, behind⟩ := by
  rw [cut, if_neg hc] at h
  cases h
  refine ⟨_, _, ⟨List.cons_ne_nil _ _, ?_, ?_⟩, ?_, rfl⟩
  · intro hmem
    rcases List.mem_cons.1 hmem with heq | hmem
    · exact hc heq.symm
    · have hnot := List.all_eq_true.1 (List.all_takeWhile (p := (· != '<'))) _ hmem
      exact absurd rfl (bne_iff_ne.1 hnot)
  · have hnot := List.head?_dropWhile_not (· != '<') r
    cases hbehind : r.dropWhile (· != '<') with
    | nil => exact .inl rfl
    | cons d more =>
      rw [hbehind, List.head?_cons] at hnot
      have hd : d = '<' := by simpa using hnot
      exact .inr (congrArg some hd)
  · rw [List.cons_append, List.takeWhile_append_dropWhile]

namespace Progress

variable {p q : Progress} {f : Fault} {c : Char} {r : List Char}

theorem faultAt_nil_iff :
    p.FaultAt [] f ↔ ∃ u more, p.builder.opened = u :: more ∧ f = .unclosed u.name := by
  constructor
  · intro h
    generalize hs : ([] : List Char) = s at h
    cases h with
    | unclosed h => exact ⟨_, _, h, rfl⟩
    | markup h => cases hs
    | tag h hf => cases hs
    | run h hf => exact absurd (List.append_eq_nil_iff.1 hs.symm).1 h.ne_nil
  · rintro ⟨u, more, hopened, rfl⟩
    exact .unclosed hopened

/-- A fault is found where no token can be cut off, or where the first one does not fit. -/
theorem faultAt_iff_cut :
    p.FaultAt (c :: r) f ↔
      Token.cut c r = .error f ∨ ∃ t, Token.cut c r = .ok t ∧ p.Misfit t.token f := by
  constructor
  · intro h
    generalize hs : c :: r = s at h
    cases h with
    | unclosed h => cases hs
    | markup h =>
      cases hs
      exact .inl (by rw [Token.cut_bracket, h])
    | tag h hf =>
      cases hs
      exact .inr ⟨_, by rw [Token.cut_bracket, h], hf⟩
    | run h hf =>
      rcases h.cut with ⟨d, tail, heq, hcut⟩
      rw [← hs] at heq
      cases heq
      exact .inr ⟨_, hcut, hf⟩
  · intro h
    by_cases hc : c = '<'
    · subst hc
      rw [Token.cut_bracket] at h
      rcases h with herror | ⟨t, hcut, hf⟩
      · exact .markup herror
      · exact .tag hcut hf
    · rcases h with herror | ⟨t, hcut, hf⟩
      · rw [Token.cut, if_neg hc] at herror
        cases herror
      · rcases Token.exists_run_of_cut hcut hc with ⟨raw, behind, hrun, heq, rfl⟩
        rw [heq]
        exact .run hrun hf

theorem stopsAt_nil_iff {k : Nat} : p.StopsAt [] k f ↔ k = 0 ∧ p.FaultAt [] f := by
  constructor
  · rintro ⟨ls, q, behind, hlexes, hruns, hk, hfault⟩
    cases hlexes
    cases hruns
    exact ⟨hk, hfault⟩
  · rintro ⟨rfl, hfault⟩
    exact ⟨[], p, [], .stop _, .stop p, rfl, hfault⟩

/-- Where no token can be cut off, reading stops at once. -/
theorem stopsAt_of_cut_error {g : Fault} (h : Token.cut c r = .error g) {k : Nat} :
    p.StopsAt (c :: r) k f ↔ k = 0 ∧ f = g := by
  constructor
  · rintro ⟨ls, q, behind, hlexes, hruns, hk, hfault⟩
    cases hlexes with
    | token hok _ =>
      rw [h] at hok
      cases hok
    | stop =>
      cases hruns
      rcases faultAt_iff_cut.1 hfault with herror | ⟨t, hok, -⟩
      · rw [h] at herror
        cases herror
        exact ⟨hk, rfl⟩
      · rw [h] at hok
        cases hok
  · rintro ⟨rfl, rfl⟩
    exact ⟨[], p, c :: r, .stop _, .stop p, rfl, faultAt_iff_cut.2 (.inl h)⟩

/-- Else it stops at the first token, or behind it. -/
theorem stopsAt_of_cut {t : Token.Cut} (h : Token.cut c r = .ok t) {k : Nat} :
    p.StopsAt (c :: r) k f ↔
      (k = 0 ∧ p.Misfit t.token f) ∨
        ∃ q m, p.Takes ⟨t.token, t.chars⟩ q ∧ q.StopsAt t.rest m f ∧
          k = Text.Utf8.width t.chars + m := by
  constructor
  · rintro ⟨ls, q, behind, hlexes, hruns, rfl, hfault⟩
    cases hlexes with
    | stop =>
      cases hruns
      rcases faultAt_iff_cut.1 hfault with herror | ⟨t', hok, hmisfit⟩
      · rw [h] at herror
        cases herror
      · rw [h] at hok
        cases hok
        exact .inl ⟨rfl, hmisfit⟩
    | token hok hmore =>
      rw [h] at hok
      cases hok
      cases hruns with
      | token htakes hrest =>
        refine .inr ⟨_, _, htakes, ⟨_, q, behind, hmore, hrest, rfl, hfault⟩, ?_⟩
        rw [spell_cons, Text.Utf8.width_append]
  · rintro (⟨rfl, hmisfit⟩ | ⟨q, m, htakes, ⟨ls, q', behind, hlexes, hruns, rfl, hfault⟩, rfl⟩)
    · exact ⟨[], p, c :: r, .stop _, .stop p, rfl, faultAt_iff_cut.2 (.inr ⟨t, h, hmisfit⟩)⟩
    · refine ⟨_ :: ls, q', behind, .token h hlexes, .token htakes hruns, ?_, hfault⟩
      rw [spell_cons, Text.Utf8.width_append]

end Progress

/-! ## Reading up to a fault -/

theorem Builder.complete?_eq_error_iff {b : Builder} {f : Fault} :
    b.complete? = .error f ↔ ∃ u more, b.opened = u :: more ∧ f = .unclosed u.name := by
  cases hopened : b.opened with
  | nil =>
    simp only [complete?, hopened]
    constructor
    · intro h
      cases h
    · rintro ⟨u, more, h, -⟩
      cases h
  | cons u more =>
    simp only [complete?, hopened]
    constructor
    · intro h
      cases h
      exact ⟨u, more, rfl, rfl⟩
    · rintro ⟨u', more', h, rfl⟩
      cases h
      rfl

namespace Reading

/-- What comes of a reading behind what is built so far: the root, or the first fault and
its position. -/
def rest (b : Builder) (r : Reading) : Except (Nat × Fault) (Option Element) := do
  let b ← (b.takeAll r.events).result
  let stop ← r.ending
  b.complete?.mapError fun f => (stop, f)

theorem result_tree (r : Reading) : r.tree.result = r.rest .empty := by
  change (Attempt.bind (Builder.empty.takeAll r.events) fun b =>
    (Attempt.ofExcept r.ending).bind fun stop =>
      Attempt.ofExcept (b.complete?.mapError fun f => (stop, f))).result = _
  unfold rest
  cases hrun : (Builder.empty.takeAll r.events).result with
  | error e => rw [Attempt.bind_error hrun]; rfl
  | ok b =>
    rw [Attempt.bind_ok hrun]
    cases hend : r.ending <;> rfl

theorem result_takeAll_append (b : Builder) (a c : List (Nat × Event)) :
    (b.takeAll (a ++ c)).result =
      (do let b ← (b.takeAll a).result; (b.takeAll c).result) := by
  induction a generalizing b with
  | nil => rfl
  | cons e a ih =>
    rw [List.cons_append, Builder.takeAll, Builder.takeAll]
    cases htake : (b.take e).result with
    | error f =>
      rw [Attempt.bind_error htake, Attempt.bind_error htake]
      rfl
    | ok b₁ =>
      rw [Attempt.bind_ok htake, Attempt.bind_ok htake]
      exact ih b₁

/-- Events at one place are taken one by one, and a fault is found at that place. -/
theorem result_takeAll_map (n : Nat) (b : Builder) (es : List Event) :
    (b.takeAll (es.map fun e => (n, e))).result =
      (es.foldlM Builder.step b).mapError fun f => (n, f) := by
  induction es generalizing b with
  | nil => rfl
  | cons e es ih =>
    rw [List.map_cons, Builder.takeAll, List.foldlM_cons]
    cases hstep : b.step e with
    | error f =>
      have htake : (b.take (n, e)).result = .error (n, f) := by
        simp only [Builder.take, hstep, Attempt.mapError_error]
      rw [Attempt.bind_error htake]
      rfl
    | ok b₁ =>
      have htake : (b.take (n, e)).result = .ok b₁ := by
        simp only [Builder.take, hstep, Attempt.mapError_ok]
      rw [Attempt.bind_ok htake]
      exact ih b₁

/-- Reading stops at a token that does not fit, and else goes on behind it. -/
theorem rest_of_token {p : Progress} {c : Char} {r : List Char} {t : Token.Cut}
    (h : Token.cut c r = .ok t) (n : Nat) :
    (of p.names n (c :: r)).rest p.builder =
      match p.next t.token with
      | .error f => .error (n, f)
      | .ok q => (of q.names (n + Text.Utf8.width t.chars) t.rest).rest q.builder := by
  cases hevents : Event.ofToken p.names t.token with
  | error f =>
    rw [of_fault h hevents, Progress.next_of_error hevents]
    rfl
  | ok found =>
    rcases found with ⟨events, names⟩
    rw [of_token h hevents, Progress.next_of_ok hevents, rest, after, result_takeAll_append,
      result_takeAll_map]
    cases events.foldlM Builder.step p.builder <;> rfl

theorem rest_of_nil (p : Progress) (n : Nat) :
    (of p.names n []).rest p.builder = p.builder.complete?.mapError fun f => (n, f) := by
  rw [of_eq_nil]
  rfl

/-- Reading stops where a run over tokens comes to a fault, and nowhere else. -/
theorem rest_eq_error_iff {p : Progress} (hp : p.InStep) {s : List Char} {n m : Nat} {f : Fault} :
    (of p.names n s).rest p.builder = .error (m, f) ↔ ∃ k, p.StopsAt s k f ∧ m = n + k := by
  fun_induction lexemes? s generalizing p n with
  | case1 =>
    rw [rest_of_nil, Attempt.mapError_eq_error_iff]
    simp only [Progress.stopsAt_nil_iff, Progress.faultAt_nil_iff, Builder.complete?_eq_error_iff]
    constructor
    · rintro ⟨g, hopened, hpair⟩
      cases hpair
      exact ⟨0, ⟨rfl, hopened⟩, rfl⟩
    · rintro ⟨k, ⟨rfl, hopened⟩, rfl⟩
      exact ⟨f, hopened, rfl⟩
  | case2 c r g hcut =>
    rw [of_cut_error hcut]
    simp only [Progress.stopsAt_of_cut_error hcut]
    constructor
    · intro h
      cases h
      exact ⟨0, ⟨rfl, rfl⟩, rfl⟩
    · rintro ⟨k, ⟨rfl, rfl⟩, rfl⟩
      rfl
  | case3 c r t hcut ih =>
    rw [rest_of_token hcut]
    simp only [Progress.stopsAt_of_cut hcut]
    constructor
    · intro h
      cases hnext : p.next t.token with
      | error g =>
        rw [hnext] at h
        cases h
        exact ⟨0, .inl ⟨rfl, (Progress.next_eq_error_iff hp).1 hnext⟩, rfl⟩
      | ok q =>
        rw [hnext] at h
        have htakes : p.Takes ⟨t.token, t.chars⟩ q := Progress.takes_iff.2 hnext
        rcases (ih (htakes.inStep hp)).1 h with ⟨k, hstops, rfl⟩
        exact ⟨_, .inr ⟨q, k, htakes, hstops, rfl⟩, Nat.add_assoc _ _ _⟩
    · rintro ⟨k, ⟨rfl, hmisfit⟩ | ⟨q, k', htakes, hstops, rfl⟩, rfl⟩
      · simp only [(Progress.next_eq_error_iff hp).2 hmisfit]
      · rw [Progress.takes_iff.1 htakes]
        exact (ih (htakes.inStep hp)).2 ⟨k', hstops, (Nat.add_assoc _ _ _).symm⟩

/-- Reading stops once. -/
theorem stopsAt_unique {p : Progress} (hp : p.InStep) {s : List Char} {k k' : Nat} {f f' : Fault}
    (h : p.StopsAt s k f) (h' : p.StopsAt s k' f') : k = k' := by
  have hfirst := (rest_eq_error_iff (n := 0) hp).2 ⟨k, h, (Nat.zero_add k).symm⟩
  have hsecond := (rest_eq_error_iff (n := 0) hp).2 ⟨k', h', (Nat.zero_add k').symm⟩
  rw [hfirst] at hsecond
  exact congrArg (fun e : Nat × Fault => e.1) (Except.error.inj hsecond)

end Reading

/-- A document is refused because its bytes are no text behind a byte-order mark, or because
reading its text, which may have one more mark in front, stops at a fault. -/
theorem Document.result_parse_eq_error_iff {source : String} {bytes : List UInt8} {err : Error} :
    (parse source bytes).result = .error err ↔
      (∃ n, Text.Utf8.text (Text.Utf8.dropMark bytes) = .error n ∧ err = .encoding source n) ∨
      ∃ full n f, bytes = Text.Utf8.encode full ∧
        Progress.start.StopsAt (Text.Utf8.withoutMark (Text.Utf8.withoutMark full)) n f ∧
        err = .malformed source n f := by
  cases htext : Text.Utf8.text (Text.Utf8.dropMark bytes) with
  | error n =>
    rw [parse_of_text_error htext]
    constructor
    · intro h
      cases h
      exact .inl ⟨n, rfl, rfl⟩
    · rintro (⟨n', hn, rfl⟩ | ⟨full, -, -, rfl, -⟩)
      · cases hn
        rfl
      · rw [Text.Utf8.text_dropMark_eq_ok_iff.2 ⟨full, rfl, rfl⟩] at htext
        cases htext
  | ok s =>
    have hfront (n : Nat) (f : Fault) : (Reading.document s).tree.result = .error (n, f) ↔
        Progress.start.StopsAt (Text.Utf8.withoutMark s) n f := by
      rw [Reading.result_tree, Reading.document_eq]
      refine (Reading.rest_eq_error_iff Progress.inStep_start).trans ?_
      simp only [Nat.zero_add, exists_eq_right']
    have hparse : (parse source bytes).result = .error err ↔
        ∃ n f, Progress.start.StopsAt (Text.Utf8.withoutMark s) n f ∧
          err = .malformed source n f := by
      unfold parse
      simp only [htext, Attempt.result_bind_eq_error_iff, Attempt.result_mapError_eq_error_iff]
      constructor
      · rintro (⟨⟨n, f⟩, htree, rfl⟩ | ⟨root, -, hok⟩)
        · exact ⟨n, f, (hfront n f).1 htree, rfl⟩
        · cases hok
      · rintro ⟨n, f, hstops, rfl⟩
        exact .inl ⟨(n, f), (hfront n f).2 hstops, rfl⟩
    rw [hparse]
    constructor
    · rintro ⟨n, f, hstops, rfl⟩
      rcases Text.Utf8.text_dropMark_eq_ok_iff.1 htext with ⟨full, rfl, rfl⟩
      exact .inr ⟨full, n, f, rfl, hstops, rfl⟩
    · rintro (⟨n, hn, -⟩ | ⟨full, n, f, rfl, hstops, rfl⟩)
      · cases hn
      · rw [Text.Utf8.text_dropMark_eq_ok_iff.2 ⟨full, rfl, rfl⟩] at htext
        cases htext
        exact ⟨n, f, hstops, rfl⟩

end MasterPackage.Markup
