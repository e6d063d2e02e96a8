import MasterPackage.AssetMap.Schema
import MasterPackage.Transport.Load

/-!
# Loading an asset map

The paths of an asset map are resolved against the directory of its own location.
-/

namespace MasterPackage.AssetMap

open Transport

/-- What the start of a load is noted as. -/
def loadingNote (url : String) : Note := ⟨.debug, "loading asset map", [("url", url)]⟩

/-- What an asset map that was read is noted as. -/
def parsedNote (url base : String) (assets : Nat) : Note :=
  ⟨.debug, "asset map parsed", [("url", url), ("base", base), ("assets", toString assets)]⟩

/-- Loads the asset map at a location and reads it. -/
def atUrl {ω σ : Type} (h : Host ω σ) (limits : Limits) (options : Options)
    (url : String) (supplied : Option σ) (composition : Option CompositionId) :
    Action ω Error Registry := do
  Action.note (loadingNote url)
  let bytes ← (h.load limits options url supplied).mapError .load
  let base := Location.directory url
  let registry ← Action.ofNoted (ofBytes ⟨url, base, composition, h.room⟩ bytes)
  Action.note (parsedNote url base registry.size)
  pure registry

end MasterPackage.AssetMap
