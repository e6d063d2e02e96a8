import MasterPackage.CommandLine.Arguments
import MasterPackage.Package.Basic
import MasterPackage.Settings.File

/-!
# Running a command

A command works on the files of a machine and ends with a report or with a failure.  A
failure is told from the outside in: what was being done, what went wrong, and what the
machine said about it.  The paths that a run looks at are told as well (`paths`), so that
a machine whose files are read beforehand can be asked for no more than those.
-/

namespace MasterPackage.CommandLine

open Transport

/-- What is told about a failure, the outermost first. -/
structure Failure where
  chain : List String
  deriving DecidableEq, Repr

/-- What is told about a load error. -/
def loadChain (e : LoadError) : List String := e.message :: e.cause?.toList

/-- What is told about an error of an asset map. -/
def assetMapChain : AssetMap.Error → List String
  | .load e => loadChain e
  | e => [e.message]

/-- What is told about an error of the settings. -/
def settingsChain : Settings.Error → List String
  | .unreadable path cause => [(Settings.Error.unreadable path cause).message, cause]
  | .invalid => [Settings.Error.invalid.message]

/-- What is told about an error of a package. -/
def packageChain : Package.Error → List String
  | .load e => loadChain e
  | .assetMap e => assetMapChain e
  | .settings e => settingsChain e
  | e => [e.message]

/-- An error with what was being done in front. -/
def Failure.during (doing : String) (chain : List String) : Failure := ⟨doing :: chain⟩

/-- The host of a command: the files of its machine, with nobody to stop it. -/
def host (disk : Disk) : Host Signals OpenFile := disk.host .never

/-- Reads the settings that a command was given. -/
def loadSettings (disk : Disk) : Option String → Action Signals Failure Settings
  | none => Action.ofAttempt (.ok .default)
  | some path => do
    Action.note ⟨.debug, "loading config", [("path", path)]⟩
    Action.ofAttempt (.ofExcept
      ((Settings.load disk path).mapError fun e =>
        Failure.during ("loading config " ++ path) (settingsChain e)))

/-- The settings with the command's own choice of an asset map. -/
def withAssetMap (settings : Settings) (assetMap : Option String) : Settings :=
  match assetMap with
  | some url => { settings with assetMap := some url }
  | none => settings

/-- Opens the package of a playlist. -/
def packageOf (disk : Disk) (settings : Settings) (playlist : String) :
    Action Signals Failure (Package Playlist) := fun w =>
  let y := (Package.unopened settings).openAt (host disk) .identity playlist none w
  let told (e : Package.Error) : Failure :=
    Failure.during ("opening IMF package " ++ playlist) (packageChain e)
  ⟨(y.outcome.attempt.mapError told).bind fun _ => .ok y.package, y.outcome.world⟩

/-- An outcome of a package as it is, with nothing in front. -/
def direct {α : Type} (x : Except Package.Error α) : Action Signals Failure α :=
  Action.ofAttempt (.ofExcept (x.mapError fun e => ⟨packageChain e⟩))

/-- Finds what a package's asset map lists, and what is missing from it. -/
def listAssets (disk : Disk) (settings : Settings) (playlist : String) :
    Action Signals Failure PackageListing := do
  let package ← packageOf disk settings playlist
  let missing ← direct (package.unlistedAssets .identity)
  let assetMap := package.mapUrl?.getD ""
  let (composition, registry) ← direct package.takeApart
  pure ⟨composition, assetMap, registry.toList, missing⟩

/-- Finds one asset of a package. -/
def findAsset (disk : Disk) (settings : Settings) (playlist id : String) :
    Action Signals Failure AssetPlace := do
  let id ← Action.ofAttempt (.ofExcept
    ((AssetId.parse id).mapError fun e =>
      Failure.during ("invalid asset id " ++ Text.quoted id) [e.message]))
  let package ← packageOf disk settings playlist
  let registry ← Action.ofAttempt (.ofExcept
    (match package.registry? with
      | some r => .ok r
      | none => .error ⟨["package has no registry"]⟩))
  let l ← Action.ofAttempt (.ofExcept ((registry.locate id).mapError fun e => ⟨assetMapChain e⟩))
  Action.ofNoted ⟨package.closeNotes, .ok ()⟩
  pure ⟨id, l.uri⟩

/-- Finds what an asset map lists by itself. -/
def checkMap (disk : Disk) (settings : Settings) (assetMap : String) (base : Option String) :
    Action Signals Failure MapCheck := do
  let told (e : AssetMap.Error) : Failure := ⟨assetMapChain e⟩
  let bytes ←
    ((host disk).load settings.limits settings.streamOptions assetMap none).mapError fun e =>
      told (.load e)
  let base := base.getD (Location.directory assetMap)
  let registry ←
    (Action.ofNoted (AssetMap.ofBytes ⟨assetMap, base, none, (host disk).room⟩ bytes)).mapError told
  pure ⟨assetMap, base, registry.size, registry.toList, registry.duplicates⟩

/-- Finds what a command asks for. -/
def report (disk : Disk) (settings : Settings) : Command → Action Signals Failure Report
  | .assets playlist assetMap => do
    pure (.assets (← listAssets disk (withAssetMap settings assetMap) playlist))
  | .locate playlist id assetMap => do
    pure (.locate (← findAsset disk (withAssetMap settings assetMap) playlist id))
  | .check assetMap base => do
    pure (.check (← checkMap disk settings assetMap base))

/-- Runs a command and gives what it prints, with the journal of the run. -/
def run (disk : Disk) (i : Invocation) : Attempt Entry Failure String :=
  let action : Action Signals Failure String := do
    let settings ← loadSettings disk i.config
    let r ← report disk settings i.command
    pure (r.render i.format)
  (action ⟨false, 0⟩).attempt

/-- The paths that a run looked at, in order. -/
def paths (i : Invocation) (journal : List Entry) : List String :=
  i.config.toList ++
    (Entry.openings journal).filterMap fun (url, _) => (Location.machinePath url).toOption

end MasterPackage.CommandLine
