import MasterPackage.Text.Quoted

/-!
# Why a document could not be loaded
-/

namespace MasterPackage.Transport

/-- Why the document at a location could not be loaded. -/
inductive LoadError where
  /-- The stream could not be opened; the cause is the host's own words. -/
  | notOpened (url cause : String)
  /-- The host has no way to such locations. -/
  | unsupported (url scheme : String)
  /-- A read failed; the cause is the host's own words. -/
  | notRead (url cause : String)
  /-- The caller asked to stop. -/
  | interrupted (url : String)
  /-- Reading stopped before the end: the stream stalled, or it is too long. -/
  | incomplete (url : String) (read : Nat)
  | empty (url : String)
  /-- There is no memory for the buffer. -/
  | outOfMemory (url : String) (requested : Nat)
  deriving DecidableEq, Repr

namespace LoadError

/-- The wording of an error. -/
def message : LoadError → String
  | notOpened url cause => "cannot open " ++ url ++ ": " ++ cause
  | unsupported url scheme => "unsupported scheme " ++ Text.quoted scheme ++ " in " ++ url
  | notRead url cause => "read error on " ++ url ++ ": " ++ cause
  | interrupted url => "interrupted while reading " ++ url
  | incomplete url read =>
    "incomplete read of " ++ url ++ ": stopped after " ++ toString read ++
      " bytes before end of stream"
  | empty url => url ++ " is empty"
  | outOfMemory url requested => "cannot allocate " ++ toString requested ++ " bytes for " ++ url

/-- What the host said about it, if it was the host that failed. -/
def cause? : LoadError → Option String
  | notOpened _ cause => some cause
  | notRead _ cause => some cause
  | _ => none

end LoadError

end MasterPackage.Transport
