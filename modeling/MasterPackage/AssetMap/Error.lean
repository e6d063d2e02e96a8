import MasterPackage.AssetLocator
import MasterPackage.Markup.Error
import MasterPackage.Transport.Error

/-!
# What can be wrong with an asset map
-/

namespace MasterPackage.AssetMap

/-- What an asset map lacks. -/
inductive Lack where
  /-- The document has no element at all. -/
  | noRoot
  /-- The root has another name. -/
  | otherRoot (tag : String)
  | missing
  | missingOrEmpty
  /-- The text is no identifier. -/
  | badId (e : Uuid.Error)
  /-- The path leads nowhere. -/
  | nowhere (e : AssetLocator.EmptyUri)
  deriving DecidableEq

/-- The wording of a lack. -/
def Lack.message : Lack → String
  | noRoot => "root element is missing"
  | otherRoot tag => "expected as root element, found <" ++ tag ++ ">"
  | missing => "is missing"
  | missingOrEmpty => "is missing or empty"
  | badId e => e.message
  | nowhere e => e.message

/-- What is wrong with the structure of an asset map: the element, the asset it belongs
to if that is known, and the composition the map was wanted for. -/
structure SchemaError where
  document : String
  element : String
  lack : Lack
  asset : Option AssetId
  composition : Option CompositionId
  deriving DecidableEq

/-- The wording of a structural error. -/
def SchemaError.message (e : SchemaError) : String :=
  "invalid asset map " ++ e.document ++ ": <" ++ e.element ++ "> " ++ e.lack.message ++
    (match e.asset with
      | some id => " (asset " ++ id.text ++ ")"
      | none => "") ++
    (match e.composition with
      | some id => " (cpl " ++ id.text ++ ")"
      | none => "")

/-- Why there is no registry, or no entry in it. -/
inductive Error where
  | schema (e : SchemaError)
  | markup (e : Markup.Error)
  | load (e : Transport.LoadError)
  /-- The registry cannot grow beyond so many entries. -/
  | full (entries : Nat)
  | notListed (id : AssetId)
  deriving DecidableEq

/-- The wording of an error. -/
def Error.message : Error → String
  | schema e => e.message
  | markup e => e.message
  | load e => e.message
  | full entries => "cannot grow asset registry beyond " ++ toString entries ++ " entries"
  | notListed id => "asset " ++ id.text ++ " is not listed in the asset map"

end MasterPackage.AssetMap
