import MasterPackage.Transport.Host

/-!
# Loading a document

A document is loaded by reading its stream to the end.  Before every read the caller
is asked whether to stop; a read that asks to be repeated goes back to that question.
The buffer is reserved ahead of the bytes, and no document grows beyond the limit.  A
stream that was opened for the load is closed when it is over, however it ended; a
stream that the caller supplied stays open.
-/

namespace MasterPackage.Transport

/-- How much to load, and how much to expect when a stream does not know its size. -/
structure Limits where
  sizeHint : UInt64
  maxSize : UInt64
  deriving DecidableEq, Repr

/-- Eight thousand bytes are expected, and just under four thousand million taken. -/
def Limits.default : Limits := ⟨8192, 4294967294⟩

/-- The number of bytes asked for in one read. -/
def chunkSize : Nat := 16384

/-- The largest number that a size can be. -/
def maxCount : Nat := UInt64.size - 1

namespace Host

variable {ω σ : Type}

/-- What has become of a stream that was read: the bytes or the error, with the
journal, and the stream and the world as they are then. -/
structure Drained (ω σ : Type) where
  attempt : Attempt Entry LoadError (List UInt8)
  stream : σ
  world : ω

/-- Something that happened before the rest. -/
def Drained.after (entries : List Entry) (d : Drained ω σ) : Drained ω σ :=
  { d with attempt := ⟨entries ++ d.attempt.record, d.attempt.result⟩ }

/-- Bytes that were read before the rest. -/
def Drained.behind (chunk : List UInt8) (d : Drained ω σ) : Drained ω σ :=
  { d with attempt := ⟨d.attempt.record, d.attempt.result.map (chunk ++ ·)⟩ }

/-- The end of a load at a stream's stop, with so many bytes read before it. -/
def stopped (url : String) (held : Nat) (atEnd : Bool) : Except LoadError (List UInt8) :=
  if !atEnd then .error (.incomplete url held)
  else if held = 0 then .error (.empty url)
  else .ok []

/-- Reads the rest of a stream, of which so many bytes are held already. -/
def drain (h : Host ω σ) (maxSize : Nat) (url : String) (held : Nat) (s : σ) (w : ω) :
    Drained ω σ :=
  match _p : h.poll w with
  | (true, w₁) => ⟨⟨[.poll true], .error (.interrupted url)⟩, s, w₁⟩
  | (false, w₁) =>
    match _h : h.read chunkSize s w₁ with
    | (.failed cause, s₂, w₂) =>
      ⟨⟨[.poll false, .read (.failed cause)], .error (.notRead url cause)⟩, s₂, w₂⟩
    | (.again, s₂, w₂) => (drain h maxSize url held s₂ w₂).after [.poll false, .read .again]
    | (.bytes [], s₂, w₂) =>
      ⟨⟨[.poll false, .read (.bytes [])], stopped url held (h.atEnd s₂)⟩, s₂, w₂⟩
    | (.bytes (b :: bs), s₂, w₂) =>
      let chunk := b :: bs
      if _hm : maxSize < held + chunk.length then
        ⟨⟨[.poll false, .read (.bytes chunk)], .error (.incomplete url held)⟩, s₂, w₂⟩
      else if h.grants held chunk.length then
        ((drain h maxSize url (held + chunk.length) s₂ w₂).behind chunk).after
          [.poll false, .read (.bytes chunk), .reservation held chunk.length]
      else
        ⟨⟨[.poll false, .read (.bytes chunk), .reservation held chunk.length],
          .error (.outOfMemory url chunk.length)⟩, s₂, w₂⟩
termination_by (maxSize - held, h.patience s w)
decreasing_by
  · have hlt := h.patience_lt chunkSize s w
    rw [_p, _h] at hlt
    exact Prod.Lex.right _ (hlt rfl rfl)
  · have hpos : 0 < chunk.length := Nat.succ_pos bs.length
    have hlt : maxSize - (held + chunk.length) < maxSize - held := by omega
    exact Prod.Lex.left _ _ hlt

/-- The number of bytes to expect of a stream. -/
def hint (h : Host ω σ) (limits : Limits) (s : σ) : Nat :=
  match h.size? s with
  | some (n + 1) => min (n + 1) limits.maxSize.toNat
  | _ => limits.sizeHint.toNat

/-- The number of bytes to reserve before the first read: one more than expected. -/
def firstReservation (h : Host ω σ) (limits : Limits) (s : σ) : Nat :=
  min (h.hint limits s + 1) maxCount

/-- What a finished load is noted as. -/
def loadedNote (url : String) (size hint : Nat) : Note :=
  ⟨.debug, "document loaded", [("url", url), ("bytes", toString size), ("hint", toString hint)]⟩

/-- Reads a stream to its end. -/
def readAll (h : Host ω σ) (limits : Limits) (url : String) (s : σ) (w : ω) : Drained ω σ :=
  let requested := h.firstReservation limits s
  let reservation := Entry.reservation 0 requested
  if h.grants 0 requested then
    let d := (h.drain limits.maxSize.toNat url 0 s w).after [reservation]
    match d.attempt.result with
    | .ok bytes =>
      { d with
        attempt := ⟨d.attempt.record ++ [.note (loadedNote url bytes.length (h.hint limits s))],
          .ok bytes⟩ }
    | .error _ => d
  else ⟨⟨[reservation], .error (.outOfMemory url requested)⟩, s, w⟩

/-- What the close of a stream is noted as. -/
def closedNote (url : String) : Note := ⟨.debug, "closed document stream", [("url", url)]⟩

/-- Reads a stream that was opened for it, and closes it. -/
def readAndClose (h : Host ω σ) (limits : Limits) (url : String) (s : σ) :
    Action ω LoadError (List UInt8) := fun w =>
  let d := h.readAll limits url s w
  ⟨⟨.opened url :: d.attempt.record ++ [.closing url, .note (closedNote url)], d.attempt.result⟩,
    d.world⟩

/-- Loads the document at a location, from the stream that was supplied for it or else
from one that is opened. -/
def load (h : Host ω σ) (limits : Limits) (options : Options) (url : String)
    (supplied : Option σ) : Action ω LoadError (List UInt8) :=
  match supplied with
  | some s => fun w =>
    let d := h.readAll limits url s w
    ⟨d.attempt, d.world⟩
  | none => do
    Action.enter (.opening url options)
    let s ← h.openStream url options
    h.readAndClose limits url s

theorem load_supplied (h : Host ω σ) (limits : Limits) (options : Options) (url : String)
    (s : σ) (w : ω) :
    h.load limits options url (some s) w =
      ⟨(h.readAll limits url s w).attempt, (h.readAll limits url s w).world⟩ := rfl

theorem load_opened (h : Host ω σ) (limits : Limits) (options : Options) (url : String) :
    h.load limits options url none =
      (Action.enter (.opening url options)).bind fun _ =>
        (h.openStream url options).bind fun s => h.readAndClose limits url s := rfl

end Host

end MasterPackage.Transport
