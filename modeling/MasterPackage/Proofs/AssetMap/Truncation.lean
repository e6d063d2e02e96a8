import MasterPackage.AssetMap.Schema
import MasterPackage.Proofs.Markup.Truncation

/-!
# Asset maps that are cut off

An asset map whose bytes end inside its root element makes no registry, and so none with
fewer assets than were sent: reading fails before the first asset is looked at.
-/

namespace MasterPackage.AssetMap

/-- Bytes that are no document are no asset map. -/
theorem ofBytes_eq_error {ctx : Context} {bytes : List UInt8} {err : Markup.Error}
    (h : (Markup.Document.parse ctx.document bytes).result = .error err) :
    (ofBytes ctx bytes).result = .error (.markup err) := by
  refine Attempt.result_bind_eq_error_iff.2 (.inl ?_)
  exact Attempt.result_mapError_eq_error_iff.2 ⟨err, h, rfl⟩

/-- The tokens of the document that is cut off below. -/
theorem lexemes?_sample : Markup.lexemes? "<a>é</a>".toList =
    some [⟨.start ['a'] false, "<a>".toList⟩, .text ['é'], ⟨.finish ['a'], "</a>".toList⟩] := by
  have hstart : Markup.Token.cut '<' "a>é</a>".toList =
      .ok ⟨.start ['a'] false, "<a>".toList, "é</a>".toList⟩ := rfl
  have htext : Markup.Token.cut 'é' "</a>".toList = .ok ⟨.text ['é'], ['é'], "</a>".toList⟩ := rfl
  have hfinish : Markup.Token.cut '<' "/a>".toList = .ok ⟨.finish ['a'], "</a>".toList, []⟩ := rfl
  have hthird : Markup.lexemes? "</a>".toList = some [⟨.finish ['a'], "</a>".toList⟩] := by
    rw [show "</a>".toList = '<' :: "/a>".toList from rfl, Markup.lexemes?_cons hfinish,
      Markup.lexemes?_nil]
    rfl
  have hsecond : Markup.lexemes? "é</a>".toList =
      some [.text ['é'], ⟨.finish ['a'], "</a>".toList⟩] := by
    rw [show "é</a>".toList = 'é' :: "</a>".toList from rfl, Markup.lexemes?_cons htext, hthird]
    rfl
  rw [show "<a>é</a>".toList = '<' :: "a>é</a>".toList from rfl, Markup.lexemes?_cons hstart,
    hsecond]
  rfl

/-- The root of a document has a first byte, which is the `<` of the first start tag, and a
last byte, which is a `>`.  In front of the one the document has no root, and up to the
other it has the whole one; bytes that end between the two are refused, as a document and
as an asset map. -/
theorem refused_of_cut_in_root {source : String} {bytes : List UInt8}
    {document : Markup.Document} {e : Markup.Element}
    (h : (Markup.Document.parse source bytes).result = .ok document)
    (hroot : document.root = some e) :
    ∃ start stop, Markup.rootSpan? bytes = some (start, stop) ∧
      start < stop ∧ stop ≤ bytes.length ∧
      bytes[start]? = some 0x3C ∧ bytes[stop - 1]? = some 0x3E ∧
      (Markup.Document.parse source (bytes.take start)).result = .ok ⟨source, none⟩ ∧
      (Markup.Document.parse source (bytes.take stop)).result = .ok ⟨source, some e⟩ ∧
      ∀ cut, cut <+: bytes → start < cut.length → cut.length < stop →
        (∀ name, ∃ err, (Markup.Document.parse name cut).result = .error err) ∧
          ∀ ctx, ∃ err, (ofBytes ctx cut).result = .error (.markup err) := by
  rcases Markup.Document.exists_rooted h hroot with ⟨d⟩
  refine ⟨d.start, d.stop, d.rootSpan?_eq, d.start_lt_stop, d.stop_le_length, d.getElem?_start,
    d.getElem?_stop, d.parse_start source, d.parse_stop source, ?_⟩
  intro cut hcut hstart hstop
  have hparse := d.parse_cut hcut hstart hstop
  refine ⟨hparse, fun ctx => ?_⟩
  rcases hparse ctx.document with ⟨err, herr⟩
  exact ⟨err, ofBytes_eq_error herr⟩

/-- A document with one element is refused where its bytes end inside a character. -/
theorem refused_inside_character :
    (∀ name, ∃ err, (Markup.Document.parse name
      ((Text.Utf8.encode "<a>é</a>".toList).take 4)).result = .error err) ∧
      ∀ ctx, ∃ err, (ofBytes ctx
        ((Text.Utf8.encode "<a>é</a>".toList).take 4)).result = .error (.markup err) := by
  have hparse : (Markup.Document.parse "memory" (Text.Utf8.encode "<a>é</a>".toList)).result =
      .ok ⟨"memory", some ⟨"a", "é", []⟩⟩ := by
    have htext : Markup.Event.ofToken [['a']] (.text ['é']) = .ok ([.text "é"], [['a']]) := by
      simp only [Markup.Event.ofToken, Markup.Reference.expand_eq_self (s := ['é']) (by decide)]
    refine Markup.Document.result_parse_eq_ok_iff_runs.2
      ⟨"<a>é</a>".toList, _, ⟨[], [], some ⟨"a", "é", []⟩⟩, rfl, lexemes?_sample, ?_, rfl, rfl⟩
    apply Markup.Progress.Runs.token (q := ⟨[['a']], [.start "a"], none⟩) ⟨_, rfl, rfl⟩
    apply Markup.Progress.Runs.token (q := ⟨[['a']], [⟨"a", "é", []⟩], none⟩) ⟨_, htext, rfl⟩
    exact .token (q := ⟨[], [], some ⟨"a", "é", []⟩⟩) ⟨_, rfl, rfl⟩ (.stop _)
  have hplace : Markup.rootSpan? (Text.Utf8.encode "<a>é</a>".toList) = some (0, 9) := by
    have hbytes : Text.Utf8.text (Text.Utf8.dropMark (Text.Utf8.encode "<a>é</a>".toList)) =
        .ok "<a>é</a>".toList := Text.Utf8.text_dropMark_eq_ok_iff.2 ⟨_, rfl, rfl⟩
    have hbody : Text.Utf8.withoutMark "<a>é</a>".toList = "<a>é</a>".toList := rfl
    simp only [Markup.rootSpan?, hbytes, hbody, lexemes?_sample]
    rfl
  rcases refused_of_cut_in_root hparse rfl with ⟨start, stop, hspan, -, -, -, -, -, -, hcut⟩
  rw [hplace] at hspan
  cases hspan
  exact hcut _ (List.take_prefix 4 _) (by decide) (by decide)

end MasterPackage.AssetMap
