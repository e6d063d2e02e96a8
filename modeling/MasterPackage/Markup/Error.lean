import MasterPackage.Markup.Reference

/-!
# What can be wrong with a document

A document is refused because its bytes are no text, or because the text is not well
formed.  Either way the error tells where, in bytes.
-/

namespace MasterPackage.Markup

/-- Why a text is not a well-formed document. -/
inductive Fault where
  | tagNotClosed
  | commentNotClosed
  | charactersNotClosed
  | doctypeNotClosed
  | instructionNotClosed
  | unknownMarkup
  | doctypeUnnamed
  /-- An end tag closes another element than the innermost open one. -/
  | wrongEnd (expected found : String)
  /-- An end tag where no element is open. -/
  | strayEnd (found : String)
  | reference (fault : Reference.Fault)
  | textOutsideRoot
  | secondRoot
  /-- The document ends inside an element. -/
  | unclosed (name : String)
  /-- An element is closed where none was opened. -/
  | nothingToClose
  deriving DecidableEq, Repr

/-- The wording of a fault. -/
def Fault.message : Fault → String
  | tagNotClosed => "syntax error: tag not closed: `>` not found before end of input"
  | commentNotClosed => "syntax error: comment not closed: `-->` not found before end of input"
  | charactersNotClosed => "syntax error: CDATA not closed: `]]>` not found before end of input"
  | doctypeNotClosed => "syntax error: DOCTYPE not closed: `>` not found before end of input"
  | instructionNotClosed =>
    "syntax error: processing instruction or xml declaration not closed: " ++
      "`?>` not found before end of input"
  | unknownMarkup => "syntax error: unknown or missed symbol in markup"
  | doctypeUnnamed =>
    "ill-formed document: `<!DOCTYPE>` declaration does not contain a name of a document type"
  | wrongEnd expected found =>
    "ill-formed document: expected `</" ++ expected ++ ">`, but `</" ++ found ++ ">` was found"
  | strayEnd found =>
    "ill-formed document: close tag `</" ++ found ++ ">` does not match any open tag"
  | reference fault => fault.message
  | textOutsideRoot => "text outside the root element"
  | secondRoot => "more than one root element"
  | unclosed name => "unclosed element <" ++ name ++ ">"
  | nothingToClose => "end tag without matching start tag"

/-- Why a document is refused, and at which byte. -/
inductive Error where
  | malformed (source : String) (position : Nat) (fault : Fault)
  /-- The bytes from the position on are no text. -/
  | encoding (source : String) (position : Nat)
  deriving DecidableEq, Repr

namespace Error

/-- Where the document was refused. -/
def position : Error → Nat
  | malformed _ position _ => position
  | encoding _ position => position

/-- The wording of an error. -/
def message : Error → String
  | malformed source position fault =>
    "malformed XML in " ++ source ++ " at byte " ++ toString position ++ ": " ++ fault.message
  | encoding source position => "invalid UTF-8 in " ++ source ++ " at byte " ++ toString position

end Error

end MasterPackage.Markup
