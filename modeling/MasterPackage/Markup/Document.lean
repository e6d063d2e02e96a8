import MasterPackage.Markup.Builder

/-!
# Reading a document

Bytes become a document in three steps: a byte-order mark is dropped and the rest
decoded, the text is read into events, and the events build the tree.  The first
thing that goes wrong, in document order, is the error; a fault found by reading
comes after every fault the tree finds in the events before it.
-/

namespace MasterPackage.Markup

/-- Reads the text of a document.  One more byte-order mark may stand in front and
takes no room. -/
def Reading.document (s : List Char) : Reading :=
  match s with
  | c :: r => if c = Text.Utf8.mark then of [] 0 r else of [] 0 (c :: r)
  | [] => of [] 0 []

/-- The tree that a reading builds, or the first fault and its position. -/
def Reading.tree (r : Reading) : Attempt Note (Nat × Fault) (Option Element) := do
  let b ← Builder.empty.takeAll r.events
  let stop ← Attempt.ofExcept r.ending
  Attempt.ofExcept (b.complete?.mapError fun f => (stop, f))

/-- Reads a document from its bytes; `source` names it in messages. -/
def Document.parse (source : String) (bytes : List UInt8) : Attempt Note Error Document :=
  match Text.Utf8.text (Text.Utf8.dropMark bytes) with
  | .error position => .fail (.encoding source position)
  | .ok s =>
    ((Reading.document s).tree.mapError fun (position, f) => Error.malformed source position f).bind
      fun root => .ok ⟨source, root⟩

theorem Document.parse_of_text_error {source : String} {bytes : List UInt8} {n : Nat}
    (h : Text.Utf8.text (Text.Utf8.dropMark bytes) = .error n) :
    (Document.parse source bytes).result = .error (.encoding source n) := by
  simp [parse, h, Attempt.fail]

end MasterPackage.Markup
