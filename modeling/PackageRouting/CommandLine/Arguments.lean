/-
PackageRouting/CommandLine/Arguments.lean

Reading the arguments of the command line.

Arguments are read in order.  The first word that is no option and no option's
value names the command, and what follows belongs to it; the options of the top
level may be given there too, and count more than before the command.  The first
thing that is wrong ends the reading, as does a request for help or for the
version.
-/
import PackageRouting.Options
import PackageRouting.Path.Basic

namespace PackageRouting.CommandLine

/-- Why the arguments lead to no command. -/
inductive Stop where
  /-- They are not well formed. -/
  | usage
  | help
  | version
  deriving DecidableEq, Repr

/-! ### Options -/

/-- What an option takes, and how often it may be given. -/
inductive OptionKind where
  /-- No value, once. -/
  | flag
  /-- No value, any number of times. -/
  | count
  /-- A value that satisfies a test, once. -/
  | value (isValid : String → Bool)
  /-- Values between commas, any number of times. -/
  | values

/-- An option with its names. -/
structure OptionRule where
  long : String
  short : Option Char := none
  kind : OptionKind

/-- What may follow a command, or the program itself. -/
structure Level where
  options : List OptionRule
  commands : List String := []
  /-- Whether a word may follow that is no option. -/
  admitsWord : String → Bool := fun _ => false
  tellsVersion : Bool := false

/-- What was given at a level. -/
structure Given where
  /-- The options in order, with their values. -/
  options : List (String × String) := []
  words : List String := []
  deriving DecidableEq, Repr

namespace Given

def has (g : Given) (long : String) : Bool := g.options.any (·.1 == long)

/-- The value of an option that may be given once. -/
def value? (g : Given) (long : String) : Option String := (g.options.find? (·.1 == long)).map (·.2)

/-- All values of an option that may be given often. -/
def allValues (g : Given) (long : String) : List String :=
  (g.options.filter (·.1 == long)).flatMap fun o => (o.2.toList.splitOn ',').map String.ofList

/-- Adds an option with its value. -/
def add (g : Given) (rule : OptionRule) (value : String) : Except Stop Given :=
  let added := { g with options := g.options ++ [(rule.long, value)] }
  match rule.kind with
  | .count | .values => .ok added
  | .flag => if g.has rule.long then .error .usage else .ok added
  | .value isValid => if g.has rule.long || !isValid value then .error .usage else .ok added

end Given

/-- Whether an option takes a value. -/
def OptionKind.takesValue : OptionKind → Bool
  | flag | count => false
  | value _ | values => true

/-! ### Reading -/

/-- Whether an argument can be the value of the option before it. -/
def isValue (argument : String) : Bool := argument = "-" || argument.toList.head? ≠ some '-'

/-- Reads a cluster of one-letter options, none of which takes a value. -/
def readLetters (level : Level) (g : Given) : List Char → Except Stop Given
  | [] => .ok g
  | letter :: rest =>
    if letter = 'h' then .error .help
    else if letter = 'V' && level.tellsVersion then .error .version
    else
      match level.options.find? (·.short == some letter) with
      | none => .error .usage
      | some rule => do readLetters level (← g.add rule "") rest

/-- Reads the arguments of a level, up to the command if one follows: its name and arguments are
returned. -/
def readLevel (level : Level) (g : Given) :
    List String → Except Stop (Given × Option (String × List String))
  | [] => .ok (g, none)
  | argument :: rest =>
    if argument ∈ level.commands then .ok (g, some (argument, rest))
    else
      match argument.toList with
      | ['-', '-'] =>
        if rest.all level.admitsWord then .ok ({ g with words := g.words ++ rest }, none)
        else .error .usage
      | '-' :: '-' :: name =>
        let (long, attached) := name.span (· ≠ '=')
        if long = "help".toList && attached.isEmpty then .error .help
        else if long = "version".toList && attached.isEmpty && level.tellsVersion then
          .error .version
        else
          match level.options.find? (·.long.toList == long) with
          | none => .error .usage
          | some rule =>
            match rule.kind.takesValue, attached with
            | false, [] => do readLevel level (← g.add rule "") rest
            | false, _ :: _ => .error .usage
            | true, _ :: value => do readLevel level (← g.add rule (String.ofList value)) rest
            | true, [] =>
              match rest with
              | [] => .error .usage
              | value :: rest =>
                if isValue value then do readLevel level (← g.add rule value) rest
                else .error .usage
      | '-' :: letter :: letters => do
        readLevel level (← readLetters level g (letter :: letters)) rest
      | _ =>
        if level.admitsWord argument then
          readLevel level { g with words := g.words ++ [argument] } rest
        else .error .usage

/-! ### The program's options -/

def isPath (value : String) : Bool := !value.isEmpty

/-- The options that may be given before and after the command. -/
def commonOptions : List OptionRule := [
  ⟨"verbose", some 'v', .count⟩,
  ⟨"json", none, .flag⟩,
  ⟨"cwd", none, .value isPath⟩,
  ⟨"config", none, .value isPath⟩]

/-- The values of `exports-default`. -/
def delivery? (value : String) : Option DefaultDelivery :=
  [DefaultDelivery.importModule, .script].find? (·.name == value)

/-- The options of every command that partitions a project. -/
def passOptions : List OptionRule := [
  ⟨"out-dir", none, .value isPath⟩,
  ⟨"include-private", none, .flag⟩,
  ⟨"exclude", none, .values⟩,
  ⟨"exports-default", none, .value fun v => (delivery? v).isSome⟩]

/-- What may follow a command. -/
def commandLevel : String → Level
  | "exports" => { options := commonOptions, admitsWord := isPath }
  | "plan" => { options := commonOptions ++ passOptions }
  | "importmap" =>
    { options := commonOptions ++ passOptions ++ [⟨"base-url", none, .value fun _ => true⟩] }
  | "build" =>
    { options := commonOptions ++ passOptions ++
        [⟨"minify", none, .flag⟩, ⟨"no-minify", none, .flag⟩, ⟨"sourcemap", none, .flag⟩] }
  | _ => { options := commonOptions }

def commandNames : List String := ["version", "exports", "plan", "importmap", "build", "help"]

/-- What may follow the program's name. -/
def topLevel : Level where
  options := commonOptions
  commands := commandNames
  tellsVersion := true

/-! ### Commands -/

/-- The options of a command that partitions a project. -/
structure PassArguments where
  outDir : Option Path := none
  includePrivate : Bool := false
  exclude : List String := []
  exportsDefault : Option DefaultDelivery := none
  deriving DecidableEq, Repr

/-- A command with its options. -/
inductive Command where
  | version
  | exports (manifests : List Path)
  | plan (pass : PassArguments)
  | importMap (pass : PassArguments) (baseUrl : String)
  /-- `minify` is none when the configuration decides. -/
  | build (pass : PassArguments) (minify : Option Bool) (sourcemap : Bool)
  deriving DecidableEq, Repr

/-- What the arguments ask for. -/
structure Invocation where
  json : Bool := false
  directory : Option Path := none
  config : Option Path := none
  command : Command
  deriving DecidableEq, Repr

def passArguments (g : Given) : PassArguments where
  outDir := (g.value? "out-dir").map Path.mk
  includePrivate := g.has "include-private"
  exclude := g.allValues "exclude"
  exportsDefault := (g.value? "exports-default").bind delivery?

/-- The command of a name, with what was given to it. -/
def commandOf (name : String) (g : Given) : Except Stop Command :=
  match name with
  | "exports" => .ok (.exports (g.words.map Path.mk))
  | "plan" => .ok (.plan (passArguments g))
  | "importmap" => .ok (.importMap (passArguments g) ((g.value? "base-url").getD "/"))
  | "build" =>
    if g.has "minify" && g.has "no-minify" then .error .usage
    else
      let minify := if g.has "minify" then some true
        else if g.has "no-minify" then some false else none
      .ok (.build (passArguments g) minify (g.has "sourcemap"))
  | _ => .ok .version

/-- Whether the names behind `help` name at most one command. -/
def isHelpTopic : List String → Bool
  | [] => true
  | [name] => name ∈ commandNames
  | _ => false

/-- The invocation of a command, with what was given before and after its name.  The configuration
may also come from a variable of the environment, which every level reads for itself. -/
def invocation (fromEnvironment : Option String) (name : String) (levels : List Given) :
    Except Stop Invocation := do
  let last := levels.getLast?.getD {}
  let innermost (long : String) : Option Path :=
    (levels.reverse.findSome? (·.value? long)).map Path.mk
  let command ← commandOf name last
  if fromEnvironment = some "" && levels.any (fun g => !g.has "config") then throw .usage
  return {
    json := levels.any (·.has "json")
    directory := innermost "cwd"
    config := innermost "config" <|> fromEnvironment.map Path.mk
    command := command }

def parse (arguments : List String) (fromEnvironment : Option String) : Except Stop Invocation := do
  let (top, command) ← readLevel topLevel {} arguments
  match command with
  | none => invocation fromEnvironment "version" [top]
  | some ("help", names) => throw (if isHelpTopic names then .help else .usage)
  | some (name, rest) =>
    let (given, _) ← readLevel (commandLevel name) {} rest
    invocation fromEnvironment name [top, given]

end PackageRouting.CommandLine
