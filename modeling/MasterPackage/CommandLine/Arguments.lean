import MasterPackage.Report

/-!
# Arguments

The command line has three commands with their own words and options, and options that
may stand before or after the command.  Words are taken one after the other; the first
one that fits nowhere ends the reading.  An option waits for its value until the next
word, and a value is checked when the next option or the end comes.
-/

namespace MasterPackage.CommandLine

/-- Why arguments cannot be used, or what is asked for in place of a command. -/
inductive Usage where
  | help
  | version
  /-- Nothing was given at all. -/
  | nothingGiven
  | missingCommand
  | missingWord
  | unknownArgument
  | unknownCommand
  | invalidValue
  /-- An option or flag is given twice. -/
  | givenTwice
  /-- A flag is given a value. -/
  | needlessValue
  deriving DecidableEq, Repr

/-- A command with its words and its own option. -/
inductive Command where
  /-- Open a package and list every asset of its asset map. -/
  | assets (playlist : String) (assetMap : Option String)
  /-- Resolve one asset to its location. -/
  | locate (playlist id : String) (assetMap : Option String)
  /-- Read an asset map on its own. -/
  | check (assetMap : String) (base : Option String)
  deriving DecidableEq, Repr

/-- What the arguments ask for. -/
structure Invocation where
  command : Command
  verbose : Bool
  format : Format
  config : Option String
  deriving DecidableEq, Repr

/-- The commands. -/
inductive CommandName where
  | assets
  | locate
  | check
  deriving DecidableEq, Repr

/-- The options that take a value. -/
inductive OptionName where
  | format
  | config
  | assetMap
  | base
  deriving DecidableEq, Repr

/-- The options that take none. -/
inductive Flag where
  | verbose
  | help
  | version
  deriving DecidableEq, Repr

/-- What may stand before a command, or after one. -/
structure Vocabulary where
  options : List (String × OptionName)
  flags : List (String × Flag)
  letters : List (Char × Flag)
  /-- How many words are taken. -/
  words : Nat
  /-- Whether a command follows. -/
  commands : Bool

/-- The names of the commands. -/
def commandNames : List (String × CommandName) :=
  [("assets", .assets), ("locate", .locate), ("check", .check)]

/-- The word that asks for help on a command. -/
def helpWord : String := "help"

/-- Whether a word is the name of a command, or asks for help on one. -/
def isCommandWord (w : String) : Bool := (commandNames.lookup w).isSome || w == helpWord

/-- The options that may stand anywhere. -/
def sharedOptions : List (String × OptionName) := [("format", .format), ("config", .config)]

namespace Vocabulary

/-- Before a command. -/
def top : Vocabulary where
  options := sharedOptions
  flags := [("verbose", .verbose), ("help", .help), ("version", .version)]
  letters := [('v', .verbose), ('h', .help), ('V', .version)]
  words := 0
  commands := true

/-- After a command with the given option of its own. -/
def below (option : String × OptionName) (words : Nat) : Vocabulary where
  options := option :: sharedOptions
  flags := [("verbose", .verbose), ("help", .help)]
  letters := [('v', .verbose), ('h', .help)]
  words := words
  commands := false

/-- After a command. -/
def after : CommandName → Vocabulary
  | .assets => below ("assetmap", .assetMap) 1
  | .locate => below ("assetmap", .assetMap) 2
  | .check => below ("base", .base) 1

end Vocabulary

/-- The format of a name. -/
def formatOf? (name : String) : Option Format :=
  if name = "text" then some .text else if name = "json" then some .json else none

/-- What was read of the arguments in front of a command, or after it. -/
structure Scan where
  verbose : Bool
  values : List (OptionName × String)
  /-- The last option, with its value once that came. -/
  waiting : Option (OptionName × Option String)
  words : List String
  deriving DecidableEq, Repr

namespace Scan

/-- Nothing read yet. -/
def empty : Scan := ⟨false, [], none, []⟩

/-- The value of an option. -/
def value? (s : Scan) (o : OptionName) : Option String := s.values.lookup o

/-- The option that waits for its value. -/
def waitingFor? (s : Scan) : Option OptionName :=
  match s.waiting with
  | some (o, none) => some o
  | _ => none

/-- Whether anything was given. -/
def isEmpty (s : Scan) : Bool := !s.verbose && s.values.isEmpty

/-- Sets an option to a value. -/
def give (s : Scan) (o : OptionName) (v : String) : Except Usage Scan :=
  if (s.value? o).isSome then .error .givenTwice
  else if o = .format ∧ formatOf? v = none then .error .invalidValue
  else .ok { s with values := (o, v) :: s.values }

/-- Gives the last option its value, which has to have come. -/
def settle (s : Scan) : Except Usage Scan :=
  match s.waiting with
  | none => .ok s
  | some (_, none) => .error .invalidValue
  | some (o, some v) => { s with waiting := none }.give o v

/-- Takes a flag. -/
def flag (s : Scan) (f : Flag) : Except Usage Scan := do
  let s ← s.settle
  match f with
  | .help => throw .help
  | .version => throw .version
  | .verbose => if s.verbose then throw .givenTwice else pure { s with verbose := true }

/-- Takes flags by their letters. -/
def letters (g : Vocabulary) (s : Scan) : List Char → Except Usage Scan
  | [] => .ok s
  | c :: cs =>
    match g.letters.lookup c with
    | none => .error .unknownArgument
    | some f =>
      match s.flag f with
      | .error e => .error e
      | .ok s => letters g s cs

/-- Takes an option or flag by its name, with a value if one is attached. -/
def named (g : Vocabulary) (s : Scan) (name : String) (attached : Option String) :
    Except Usage Scan :=
  match g.options.lookup name, g.flags.lookup name with
  | some o, _ => do
    let s ← s.settle
    match attached with
    | some v => s.give o v
    | none => pure { s with waiting := some (o, none) }
  | none, some f => if attached.isSome then .error .needlessValue else s.flag f
  | none, none => .error .unknownArgument

/-- Takes a word where no option is due; `trailing` tells whether options are over. -/
def word (g : Vocabulary) (s : Scan) (trailing : Bool) (w : String) : Except Usage Scan :=
  if s.words.length < g.words then do
    let s ← s.settle
    pure { s with words := s.words ++ [w] }
  else if g.commands && !(trailing && isCommandWord w) then .error .unknownCommand
  else .error .unknownArgument

/-- The two parts of a long option around its equals sign. -/
def splitLong (cs : List Char) : String × Option String :=
  let name := String.ofList (cs.takeWhile (· != '='))
  match cs.dropWhile (· != '=') with
  | _ :: v => (name, some (String.ofList v))
  | [] => (name, none)

/-- Takes one argument; the second part tells whether options are over after it. -/
def take (g : Vocabulary) (s : Scan) (trailing : Bool) (a : String) : Except Usage (Scan × Bool) :=
  if trailing then (word g s true a).map fun s => (s, true)
  else
    match a.toList with
    | ['-', '-'] => .ok (s, true)
    | '-' :: '-' :: cs =>
      let (name, attached) := splitLong cs
      (named g s name attached).map fun s => (s, false)
    | '-' :: c :: cs => (letters g s (c :: cs)).map fun s => (s, false)
    | _ =>
      match s.waitingFor? with
      | some o => .ok ({ s with waiting := some (o, some a) }, false)
      | none => (word g s false a).map fun s => (s, false)

/-- Whether an argument is taken for a command. -/
def startsCommand (g : Vocabulary) (s : Scan) (trailing : Bool) (a : String) : Bool :=
  g.commands && !trailing && s.waitingFor?.isNone && isCommandWord a

/-- Takes arguments up to a command, which is returned with the arguments after it. -/
def run (g : Vocabulary) (s : Scan) (trailing : Bool) :
    List String → Except Usage (Scan × Option (String × List String))
  | [] => .ok (s, none)
  | a :: rest =>
    if startsCommand g s trailing a then .ok (s, some (a, rest))
    else
      match take g s trailing a with
      | .error e => .error e
      | .ok (s, trailing) => run g s trailing rest

end Scan

/-- Asks for help on the command that the words name. -/
def helpOn : List String → Usage
  | [] => .help
  | [w] => if isCommandWord w then .help else .unknownCommand
  | _ => .unknownCommand

/-- Reads the arguments after a command. -/
def readCommand (name : CommandName) (args : List String) : Except Usage (Command × Scan) := do
  let (s, _) ← Scan.run (.after name) .empty false args
  let s ← s.settle
  match name, s.words with
  | .assets, [playlist] => pure (.assets playlist (s.value? .assetMap), s)
  | .locate, [playlist, id] => pure (.locate playlist id (s.value? .assetMap), s)
  | .check, [assetMap] => pure (.check assetMap (s.value? .base), s)
  | _, _ => throw .missingWord

/-- Reads the arguments.  What is said after the command counts before what is said in
front of it. -/
def readArguments (args : List String) : Except Usage Invocation := do
  let (outer, command) ← Scan.run .top .empty false args
  match command with
  | none =>
    let outer ← outer.settle
    throw (if outer.isEmpty then .nothingGiven else .missingCommand)
  | some (word, rest) =>
    match commandNames.lookup word with
    | none => throw (helpOn rest)
    | some name =>
      let (command, inner) ← readCommand name rest
      let outer ← outer.settle
      let pick (o : OptionName) : Option String := (inner.value? o).or (outer.value? o)
      pure {
        command
        verbose := inner.verbose || outer.verbose
        format := ((pick .format).bind formatOf?).getD .text
        config := pick .config }

end MasterPackage.CommandLine
