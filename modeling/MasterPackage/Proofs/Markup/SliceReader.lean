import MasterPackage.Proofs.Markup.Faults
import MasterPackage.Proofs.Markup.Slices

/-!
# Reading a document by slices

A reader that keeps to slices of the bytes decodes them where the tree needs a name or a
text.  Each time that may go wrong, and each time it says so in its own way (`Refusal`).
Where all bytes together are a text, it never does.
-/

namespace MasterPackage.Markup

open Text.Utf8 (byte encode width dropMark withoutMark)

namespace Slice

/-! ## A reader of slices -/

/-- Why bytes are refused as a document, each with a place. -/
inductive Refusal where
  /-- The bytes are no text. -/
  | whole (position : Nat)
  /-- The bytes of the local name of an element are no text. -/
  | name (position : Nat)
  /-- The bytes of a run of text are no text. -/
  | run (position : Nat)
  /-- The bytes of a section without references are no text. -/
  | characters (position : Nat)
  | malformed (position : Nat) (fault : Fault)

/-- A name for a message, or nothing if its bytes are no text. -/
def shown (name : List UInt8) : String :=
  match Text.Utf8.text name with
  | .ok cs => String.ofList cs
  | .error _ => ""

/-- The events of a token at a place, with the full names of the elements that are open
after it, innermost first; given the names open before it. -/
def events (opened : List (List UInt8)) (position : Nat) :
    Token → Except Refusal (List Event × List (List UInt8))
  | .text raw =>
    match Text.Utf8.text raw with
    | .error _ => .error (.run position)
    | .ok cs =>
      match Reference.expand cs with
      | .ok s => .ok ([.text (String.ofList s)], opened)
      | .error f => .error (.malformed position (.reference f))
  | .characters s =>
    match Text.Utf8.text s with
    | .error n => .error (.characters (position + n))
    | .ok cs => .ok ([.text (String.ofList cs)], opened)
  | .start name empty =>
    match Text.Utf8.text (localName name) with
    | .error _ => .error (.name position)
    | .ok cs =>
      if empty then .ok ([.start (String.ofList cs), .finish], opened)
      else .ok ([.start (String.ofList cs)], name :: opened)
  | .finish found =>
    match opened with
    | [] => .error (.malformed position (.strayEnd (shown found)))
    | expected :: rest =>
      if expected = found then .ok ([.finish], rest)
      else .error (.malformed position (.wrongEnd (shown expected) (shown found)))
  | .aside => .ok ([], opened)

/-- Reading goes on with one token at a place. -/
def next (opened : List (List UInt8)) (position : Nat) (b : Builder) (t : Token) :
    Except Refusal (List (List UInt8) × Builder) :=
  match events opened position t with
  | .error r => .error r
  | .ok (es, opened) =>
    match es.foldlM Builder.step b with
    | .error f => .error (.malformed position f)
    | .ok b => .ok (opened, b)

/-- Reads bytes at a place behind what is open and what is built so far. -/
def read (opened : List (List UInt8)) (position : Nat) (b : Builder) (s : List UInt8) :
    Except Refusal (Option Element) :=
  match s with
  | [] => b.complete?.mapError (.malformed position)
  | c :: r =>
    match _h : cut (c :: r) with
    | .error f => .error (.malformed position f)
    | .ok t =>
      match next opened position b t.token with
      | .error refusal => .error refusal
      | .ok (opened, b) => read opened (position + t.slice.length) b t.rest
termination_by s.length
decreasing_by exact length_of_cut _h

/-- Reads the bytes of a document: one byte-order mark is dropped, the rest has to be a text,
and one more mark is dropped before the tokens. -/
def parse (bytes : List UInt8) : Except Refusal (Option Element) :=
  match Text.Utf8.text (dropMark bytes) with
  | .error n => .error (.whole n)
  | .ok _ => read [] 0 .empty (dropMark (dropMark bytes))

/-! ## Reading slices of the bytes of a text -/

theorem shown_encode (name : List Char) : shown (encode name) = String.ofList name := by
  rw [shown, Text.Utf8.text_encode]

/-- Every check of a slice is passed, and the token does not fit for its own reasons only. -/
theorem events_of (names : List (List Char)) (position : Nat) (t : Markup.Token) :
    events (names.map encode) position (.of t) =
      match Event.ofToken names t with
      | .error f => .error (.malformed position f)
      | .ok (es, names) => .ok (es, names.map encode) := by
  cases t with
  | text raw =>
    simp only [Token.of, events, Text.Utf8.text_encode, Event.ofToken]
    cases Reference.expand raw <;> rfl
  | characters s =>
    simp only [Token.of, events, Text.Utf8.text_encode, Event.ofToken]
  | start name empty =>
    simp only [Token.of, events, localName_encode, Text.Utf8.text_encode]
    cases empty <;> rfl
  | finish found =>
    cases names with
    | nil => simp only [Token.of, events, shown_encode, Event.ofToken, List.map_nil]
    | cons expected names =>
      simp only [Token.of, events, shown_encode, Event.ofToken, List.map_cons]
      by_cases h : expected = found
      · rw [if_pos h, if_pos (congrArg encode h)]
      · rw [if_neg h, if_neg fun heq => h (Text.Utf8.encode_injective heq)]
  | aside => rfl

/-- One slice is read as the token whose bytes it has. -/
theorem next_of (p : Progress) (position : Nat) (t : Markup.Token) :
    next (p.names.map encode) position p.builder (.of t) =
      match p.next t with
      | .error f => .error (.malformed position f)
      | .ok q => .ok (q.names.map encode, q.builder) := by
  rw [next, events_of]
  cases hevents : Event.ofToken p.names t with
  | error f =>
    rw [Progress.next_of_error hevents]
  | ok found =>
    rcases found with ⟨es, names⟩
    rw [Progress.next_of_ok hevents]
    dsimp only
    cases es.foldlM Builder.step p.builder <;> rfl

theorem read_of_cut_error {c : UInt8} {r : List UInt8} {f : Fault}
    (h : cut (c :: r) = .error f) (opened : List (List UInt8)) (position : Nat) (b : Builder) :
    read opened position b (c :: r) = .error (.malformed position f) := by
  rw [read]
  split
  · next g hg =>
    rw [h] at hg
    cases hg
    rfl
  · next t ht =>
    rw [h] at ht
    cases ht

theorem read_of_cut {c : UInt8} {r : List UInt8} {t : Cut} (h : cut (c :: r) = .ok t)
    (opened : List (List UInt8)) (position : Nat) (b : Builder) :
    read opened position b (c :: r) =
      match next opened position b t.token with
      | .error refusal => .error refusal
      | .ok (opened, b) => read opened (position + t.slice.length) b t.rest := by
  rw [read]
  split
  · next g hg =>
    rw [h] at hg
    cases hg
  · next t' ht =>
    rw [h] at ht
    cases ht
    rfl

/-- The bytes of a text are read slice by slice as the text is read. -/
theorem read_encode (p : Progress) (position : Nat) (s : List Char) :
    read (p.names.map encode) position p.builder (encode s) =
      ((Reading.of p.names position s).rest p.builder).mapError fun e => .malformed e.1 e.2 := by
  fun_induction lexemes? s generalizing p position with
  | case1 =>
    rw [Reading.rest_of_nil, show encode [] = [] from rfl, read]
    cases p.builder.complete? <;> rfl
  | case2 c r f hcut =>
    have hbytes := cut_encode c r
    rw [hcut] at hbytes
    rcases List.exists_cons_of_ne_nil
      (fun h => List.cons_ne_nil c r (Text.Utf8.encode_eq_nil_iff.1 h)) with ⟨b, bs, hb⟩
    rw [hb] at hbytes ⊢
    rw [read_of_cut_error hbytes, Reading.of_cut_error hcut]
    rfl
  | case3 c r t hcut ih =>
    have hbytes := cut_encode c r
    rw [hcut] at hbytes
    rcases List.exists_cons_of_ne_nil
      (fun h => List.cons_ne_nil c r (Text.Utf8.encode_eq_nil_iff.1 h)) with ⟨b, bs, hb⟩
    rw [hb] at hbytes ⊢
    rw [read_of_cut hbytes, Reading.rest_of_token hcut]
    change (match next (p.names.map encode) position p.builder (.of t.token) with
      | .error refusal => Except.error refusal
      | .ok (opened, b) => read opened (position + (encode t.chars).length) b (encode t.rest)) = _
    rw [next_of, Text.Utf8.length_encode]
    cases p.next t.token with
    | error f => rfl
    | ok q => exact ih q _

/-- What reading by slices makes of an outcome. -/
def verdict : Except Error Document → Except Refusal (Option Element)
  | .ok document => .ok document.root
  | .error (.encoding _ position) => .error (.whole position)
  | .error (.malformed _ position fault) => .error (.malformed position fault)

theorem parse_eq_verdict (source : String) (bytes : List UInt8) :
    parse bytes = verdict (Document.parse source bytes).result := by
  cases htext : Text.Utf8.text (dropMark bytes) with
  | error n =>
    rw [Document.parse_of_text_error htext]
    simp only [parse, htext, verdict]
  | ok s =>
    have hbytes := Text.Utf8.eq_encode_of_text htext
    have hread := read_encode .start 0 (withoutMark s)
    have hparse : (Document.parse source bytes).result =
        (((Reading.of [] 0 (withoutMark s)).rest .empty).mapError fun e =>
          Error.malformed source e.1 e.2).map (Document.mk source) := by
      have htree := Reading.result_tree (Reading.document s)
      rw [Reading.document_eq] at htree
      unfold Document.parse
      simp only [htext, Attempt.bind, Attempt.mapError, Reading.document_eq, htree]
      cases (Reading.of [] 0 (withoutMark s)).rest .empty <;> rfl
    simp only [parse, htext]
    rw [hparse, hbytes, Text.Utf8.dropMark_encode_eq]
    refine hread.trans ?_
    change ((Reading.of [] 0 (withoutMark s)).rest .empty).mapError _ = _
    cases (Reading.of [] 0 (withoutMark s)).rest .empty <;> rfl

end Slice

/-! ## Faults that are never found -/

/-- What can be wrong with markup by itself. -/
def Fault.OfMarkup (f : Fault) : Prop :=
  f = .tagNotClosed ∨ f = .commentNotClosed ∨ f = .charactersNotClosed ∨ f = .doctypeNotClosed ∨
    f = .instructionNotClosed ∨ f = .unknownMarkup ∨ f = .doctypeUnnamed

theorem Fault.ofMarkup_of_cutMarkup {r : List Char} {f : Fault}
    (h : Token.cutMarkup r = .error f) : f.OfMarkup := by
  unfold Token.cutMarkup at h
  split at h
  · unfold Token.cutDeclaration at h
    split at h
    · split at h <;> cases h
      simp [OfMarkup]
    · cases h
      simp [OfMarkup]
    · split at h <;> cases h
      simp [OfMarkup]
    · cases h
      simp [OfMarkup]
    · split at h
      · split at h
        · split at h
          · split at h <;> cases h
            simp [OfMarkup]
          · cases h
            simp [OfMarkup]
        · cases h
          simp [OfMarkup]
      · cases h
        simp [OfMarkup]
    · cases h
      simp [OfMarkup]
  · cases h
    simp [OfMarkup]
  · split at h <;> cases h
    simp [OfMarkup]
  · split at h <;> cases h
    simp [OfMarkup]

theorem Progress.Misfit.ne_nothingToClose {p : Progress} {t : Token} {f : Fault}
    (h : p.Misfit t f) : f ≠ .nothingToClose := by
  cases h <;> nofun

/-- The tree is never told to close an element where none is open. -/
theorem Progress.FaultAt.ne_nothingToClose {p : Progress} {s : List Char} {f : Fault}
    (h : p.FaultAt s f) : f ≠ .nothingToClose := by
  cases h with
  | unclosed h => nofun
  | markup h =>
    rcases Fault.ofMarkup_of_cutMarkup h with rfl | rfl | rfl | rfl | rfl | rfl | rfl <;> nofun
  | tag h hf => exact hf.ne_nothingToClose
  | run h hf => exact hf.ne_nothingToClose

/-- Bytes are refused as no text where they are none behind a mark, and else never. -/
theorem Document.encoding_iff {source : String} {bytes : List UInt8} :
    (∃ s n, (parse source bytes).result = .error (.encoding s n)) ↔
      ¬∃ cs, dropMark bytes = encode cs := by
  constructor
  · rintro ⟨s, n, h⟩ ⟨cs, hcs⟩
    rcases result_parse_eq_error_iff.1 h with ⟨n', htext, -⟩ | ⟨_, _, _, -, -, herr⟩
    · rw [hcs, Text.Utf8.text_encode] at htext
      cases htext
    · cases herr
  · intro h
    cases htext : Text.Utf8.text (dropMark bytes) with
    | error n => exact ⟨source, n, parse_of_text_error htext⟩
    | ok cs => exact absurd ⟨cs, Text.Utf8.eq_encode_of_text htext⟩ h

/-- A document is read from slices of its bytes: no slice that has to be a text is refused as
none, only all bytes together are.  The tree is not told to close what is not open, for the
names that reading keeps and the elements under way are the same behind every run. -/
theorem Document.parse_by_slices (source : String) (bytes : List UInt8) :
    Slice.parse bytes = Slice.verdict (parse source bytes).result ∧
      (∀ n, Slice.parse bytes ≠ .error (.name n) ∧ Slice.parse bytes ≠ .error (.run n) ∧
        Slice.parse bytes ≠ .error (.characters n)) ∧
      ((∃ s n, (parse source bytes).result = .error (.encoding s n)) ↔
        ¬∃ cs, dropMark bytes = encode cs) ∧
      (∀ s n, (parse source bytes).result ≠ .error (.malformed s n .nothingToClose)) ∧
      ∀ ls p, Progress.start.Runs ls p →
        p.builder.opened.length = p.names.length ∧ p.builder.names = localNames p.names := by
  have hslices := Slice.parse_eq_verdict source bytes
  refine ⟨hslices, fun n => ?_, encoding_iff, fun s n h => ?_, fun ls p hruns => ?_⟩
  · rw [hslices]
    cases (parse source bytes).result with
    | ok document => exact ⟨nofun, nofun, nofun⟩
    | error err => cases err <;> exact ⟨nofun, nofun, nofun⟩
  · rcases result_parse_eq_error_iff.1 h with
      ⟨_, -, herr⟩ | ⟨_, _, _, -, ⟨_, _, _, -, -, -, hfault⟩, herr⟩
    · cases herr
    · cases herr
      exact hfault.ne_nothingToClose rfl
  · have hstep := hruns.inStep Progress.inStep_start
    have hlength := congrArg List.length hstep
    rw [Builder.names, localNames, List.length_map, List.length_map] at hlength
    exact ⟨hlength, hstep⟩

/-- Inside an element whose prefix and name are not ASCII. -/
theorem Document.parse_by_slices_inside :
    Progress.start.Runs [⟨.start ['é', ':', 'ü'] false, ['<', 'é', ':', 'ü', '>']⟩]
        ⟨[['é', ':', 'ü']], ⟨[.start "ü"], none⟩⟩ ∧
      (Builder.mk [.start "ü"] none).names = localNames [['é', ':', 'ü']] := by
  have hruns : Progress.start.Runs [⟨.start ['é', ':', 'ü'] false, ['<', 'é', ':', 'ü', '>']⟩]
      ⟨[['é', ':', 'ü']], ⟨[.start "ü"], none⟩⟩ :=
    .token ⟨[.start "ü"], rfl, rfl⟩ (.stop _)
  exact ⟨hruns, ((parse_by_slices "memory" []).2.2.2.2 _ _ hruns).2⟩

end MasterPackage.Markup
