import MasterPackage.Proofs.Markup.Faults

/-!
# Positions of errors

A document that is refused comes with a position.  This module says what stands at an
offset of its bytes that an error is about (`PointsAt`), and how the position in the error
differs from it: byte-order marks in front of a document are not counted.
-/

namespace MasterPackage.Markup

open Text.Utf8 (markBytes dropMark withoutMark encode width IsLongest)

/-- An offset in the bytes of a document where it is refused with an error; the position in
the error plays no part in this.  Bytes that are no text are refused behind the longest text
in front of them, and a text that is not well formed where a fault is found behind tokens
that reading goes through. -/
inductive PointsAt (bytes : List UInt8) : Nat → Error → Prop
  | encoding {source : String} {position : Nat} {front : List Char} (h : IsLongest front bytes)
    (refused : encode front ≠ bytes) : PointsAt bytes (width front) (.encoding source position)
  | malformed {source : String} {position : Nat} {fault : Fault} {front behind : List Char}
    {ls : List Lexeme} {p : Progress} (h : bytes = encode (front ++ behind))
    (lexes : Lexes (withoutMark (withoutMark (front ++ behind))) ls behind)
    (runs : Progress.start.Runs ls p) (found : p.FaultAt behind fault) :
    PointsAt bytes (width front) (.malformed source position fault)

/-- The bytes in front of a document that positions leave out: one byte-order mark, and a
second one where the bytes are a text. -/
def uncounted (bytes : List UInt8) : Error → Nat
  | .encoding _ _ => bytes.length - (dropMark bytes).length
  | .malformed _ _ _ => bytes.length - (dropMark (dropMark bytes)).length

theorem length_dropMark_le (bytes : List UInt8) : (dropMark bytes).length ≤ bytes.length := by
  rcases Text.Utf8.exists_of_dropMark bytes with hmark | ⟨-, hsame⟩
  · have hlength := congrArg List.length hmark
    rw [List.length_append] at hlength
    omega
  · rw [hsame]

theorem length_dropMark_lt_iff {bytes : List UInt8} :
    (dropMark bytes).length < bytes.length ↔ markBytes <+: bytes := by
  rcases Text.Utf8.exists_of_dropMark bytes with hmark | ⟨hnot, hsame⟩
  · have hlength := congrArg List.length hmark
    rw [List.length_append, show markBytes.length = 3 from rfl] at hlength
    exact ⟨fun _ => ⟨_, hmark.symm⟩, fun _ => by omega⟩
  · rw [hsame]
    exact ⟨fun h => absurd h (Nat.lt_irrefl _), fun h => absurd h hnot⟩

theorem uncounted_eq_zero_iff {bytes : List UInt8} {err : Error} :
    uncounted bytes err = 0 ↔ ¬markBytes <+: bytes := by
  have hfirst := length_dropMark_le bytes
  have hsecond := length_dropMark_le (dropMark bytes)
  rw [← length_dropMark_lt_iff]
  cases err with
  | encoding source position =>
    rw [uncounted]
    omega
  | malformed source position fault =>
    rw [uncounted]
    constructor
    · intro h
      omega
    · intro h
      have hsame : dropMark bytes = bytes := by
        rcases Text.Utf8.exists_of_dropMark bytes with hmark | ⟨-, hsame⟩
        · exact absurd (length_dropMark_lt_iff.2 ⟨_, hmark.symm⟩) h
        · exact hsame
      rw [hsame, hsame, Nat.sub_self]

/-- The longest text behind a mark, with the mark, is the longest in front of all bytes. -/
theorem exists_isLongest {bytes : List UInt8} {front : List Char}
    (h : IsLongest front (dropMark bytes)) (hne : encode front ≠ dropMark bytes) :
    ∃ whole, IsLongest whole bytes ∧ encode whole ≠ bytes ∧
      width whole = bytes.length - (dropMark bytes).length + width front := by
  rcases Text.Utf8.exists_of_dropMark bytes with hmark | ⟨-, hsame⟩
  · have hlength := congrArg List.length hmark
    rw [List.length_append] at hlength
    refine ⟨Text.Utf8.mark :: front, ?_, ?_, ?_⟩
    · rw [hmark]
      exact h.mark_cons
    · rw [hmark, Text.Utf8.encode_mark_cons]
      exact fun heq => hne (List.append_cancel_left heq)
    · rw [← Text.Utf8.length_encode, Text.Utf8.encode_mark_cons, List.length_append,
        Text.Utf8.length_encode, hlength, Nat.add_sub_cancel]
  · rw [hsame] at h hne ⊢
    exact ⟨front, h, hne, by rw [Nat.sub_self, Nat.zero_add]⟩

/-- The characters that the bytes left out of a text spell, and their number. -/
theorem exists_uncounted (full : List Char) (source : String) (position : Nat) (fault : Fault) :
    ∃ marks, full = marks ++ withoutMark (withoutMark full) ∧
      uncounted (encode full) (.malformed source position fault) = width marks := by
  rcases Text.Utf8.exists_marks full with ⟨marks, hfull, -⟩
  refine ⟨marks, hfull, ?_⟩
  rw [uncounted, Text.Utf8.dropMark_encode_eq, Text.Utf8.dropMark_encode_eq,
    Text.Utf8.length_encode, Text.Utf8.length_encode]
  have hwidth := congrArg width hfull
  rw [Text.Utf8.width_append] at hwidth
  omega

/-- An error is about one offset only: its position, counted from behind the marks. -/
theorem Document.pointsAt_iff {source : String} {bytes : List UInt8} {err : Error}
    (h : (parse source bytes).result = .error err) {offset : Nat} :
    PointsAt bytes offset err ↔ offset = uncounted bytes err + err.position := by
  rcases result_parse_eq_error_iff.1 h with ⟨n, htext, rfl⟩ | ⟨full, n, f, rfl, hstops, rfl⟩
  · rcases Text.Utf8.exists_of_text_eq_error htext with ⟨front, hlongest, hne, rfl⟩
    rcases exists_isLongest hlongest hne with ⟨whole, hwhole, hrefused, hwidth⟩
    change _ ↔ offset = bytes.length - (dropMark bytes).length + width front
    rw [← hwidth]
    constructor
    · intro hpoints
      cases hpoints with
      | encoding hfront _ => rw [hfront.unique hwhole]
    · rintro rfl
      exact .encoding hwhole hrefused
  · rcases exists_uncounted full source n f with ⟨marks, hmarks, hcount⟩
    change _ ↔ offset = uncounted (encode full) (.malformed source n f) + n
    rw [hcount]
    constructor
    · intro hpoints
      cases hpoints with
      | @malformed _ _ _ front behind ls p hbytes hlexes hruns hfault =>
        have hsame := Text.Utf8.encode_injective hbytes
        rw [← hsame] at hlexes
        have hplace := Reading.stopsAt_unique Progress.inStep_start
          ⟨ls, p, behind, hlexes, hruns, rfl, hfault⟩ hstops
        rw [← hlexes.append] at hmarks
        have hall := congrArg width (hsame.symm.trans hmarks)
        simp only [Text.Utf8.width_append] at hall
        omega
    · rintro rfl
      rcases hstops with ⟨ls, p, behind, hlexes, hruns, rfl, hfault⟩
      have hfull : full = (marks ++ spell ls) ++ behind := by
        rw [List.append_assoc, hlexes.append]
        exact hmarks
      rw [← Text.Utf8.width_append]
      exact .malformed (congrArg encode hfull) (hfull ▸ hlexes) hruns hfault

/-- The position in an error and the marks in front make up the offset that the error is
about, and the position is that offset itself exactly if no mark stands in front. -/
theorem Document.position_of_error {source : String} {bytes : List UInt8} {err : Error}
    (h : (parse source bytes).result = .error err) :
    (∀ offset, PointsAt bytes offset err ↔ offset = uncounted bytes err + err.position) ∧
      (PointsAt bytes err.position err ↔ ¬markBytes <+: bytes) := by
  refine ⟨fun offset => pointsAt_iff h, ?_⟩
  have hzero : uncounted bytes err = 0 ↔ ¬markBytes <+: bytes := uncounted_eq_zero_iff
  rw [pointsAt_iff h, ← hzero]
  omega

/-- A start tag behind a mark is refused where the tag ends, three bytes behind the mark. -/
theorem Document.parse_marked_tag :
    (parse "memory" (encode (Text.Utf8.mark :: ['<', 'a', '>']))).result =
      .error (.malformed "memory" 3 (.unclosed "a")) := by
  have htakes : Progress.start.Takes ⟨.start ['a'] false, ['<', 'a', '>']⟩
      ⟨[['a']], ⟨[.start "a"], none⟩⟩ := ⟨[.start "a"], rfl, rfl⟩
  have hbody : withoutMark (withoutMark (Text.Utf8.mark :: ['<', 'a', '>'])) = ['<', 'a', '>'] := by
    decide
  refine result_parse_eq_error_iff.2 (.inr ⟨_, 3, _, rfl, ?_, rfl⟩)
  rw [hbody]
  exact ⟨[⟨.start ['a'] false, ['<', 'a', '>']⟩], _, [],
    .token (t := ⟨.start ['a'] false, ['<', 'a', '>'], []⟩) rfl (.stop []),
    .token htakes (.stop _), rfl, .unclosed (u := .start "a") rfl⟩

theorem Document.position_of_marked_tag :
    (parse "memory" (encode (Text.Utf8.mark :: ['<', 'a', '>']))).result =
        .error (.malformed "memory" 3 (.unclosed "a")) ∧
      ∀ offset, PointsAt (encode (Text.Utf8.mark :: ['<', 'a', '>'])) offset
        (.malformed "memory" 3 (.unclosed "a")) ↔ offset = 6 := by
  refine ⟨parse_marked_tag, fun offset => ?_⟩
  rw [(position_of_error parse_marked_tag).1]
  exact Iff.rfl

/-- The position in the error is not the end of the document, where it is refused. -/
theorem Document.position_before_end :
    ∃ err, (parse "memory" (encode (Text.Utf8.mark :: ['<', 'a', '>']))).result = .error err ∧
      ¬PointsAt (encode (Text.Utf8.mark :: ['<', 'a', '>'])) err.position err := by
  refine ⟨_, parse_marked_tag, ?_⟩
  rw [pointsAt_iff parse_marked_tag]
  decide

end MasterPackage.Markup
