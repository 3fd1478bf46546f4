import LanguageServer.Session.CompilerBacked
import LanguageServer.Session.Run
import LanguageServer.Toy.Engine

/-!
# The command line

The server is started with the engine that it is to use, given by a reference of the form
`module:callable`.  One engine is built in.  Options may be shortened as long as they
stay unique, and of several engines the last one counts.

## Main definitions

* `Command` — what the command line asks for.
* `Command.ofArguments` — reads the command line.
* `Command.run` — what the program writes, and its exit status.
-/

namespace LanguageServer

/-- The name and the version of the server. -/
def serverId : ServerId := ⟨"compilerls", some "0.1.0"⟩

/-- The reference of the built-in engine. -/
def builtInEngine : String := "toy_engine:create_engine"

/-- What the command line asks for. -/
inductive Command where
  | serve
  | version
  | help
  /-- The command line is not usable. -/
  | refuse (reason : String)
  deriving DecidableEq, Repr

namespace Command

/-- The options. -/
inductive Flag where
  | help
  | engine
  | version
  deriving DecidableEq, Repr

/-- The name of an option. -/
def Flag.name : Flag → List Char
  | .help => "--help".toList
  | .engine => "--engine".toList
  | .version => "--version".toList

/-- All options. -/
def Flag.all : List Flag := [.help, .engine, .version]

/-- What an argument is.  An option may have a value behind an equals sign. -/
inductive Argument where
  | flag (f : Flag) (value : Option String)
  | ambiguous
  | unknownFlag
  | plain
  deriving DecidableEq, Repr

/-- The option that a beginning of its name stands for. -/
def flagOf (name : List Char) (value : Option String) : Argument :=
  match Flag.all.filter fun f => name.isPrefixOf f.name with
  | [] => .unknownFlag
  | [f] => .flag f value
  | _ => .ambiguous

/-- Whether a text is a negative number, which is no option. -/
def isNegativeNumber : List Char → Bool
  | '-' :: digits =>
    match Text.cutFirst? '.' digits with
    | none => digits != [] && digits.all Text.isDigit
    | some (whole, fraction) =>
      whole.all Text.isDigit && fraction != [] && fraction.all Text.isDigit
  | _ => false

/-- What an argument is. -/
def classify (argument : String) : Argument :=
  match argument.toList with
  | ['-', 'h'] => .flag .help none
  | '-' :: '-' :: name =>
    match Text.cutFirst? '=' name with
    | none => flagOrText ('-' :: '-' :: name) none
    | some (name, value) => flagOrText ('-' :: '-' :: name) (some (String.ofList value))
  | '-' :: 'h' :: value => .flag .help (some (String.ofList value))
  | '-' :: c :: cs =>
    if isNegativeNumber ('-' :: c :: cs) || (c :: cs).contains ' ' then .plain else .unknownFlag
  | _ => .plain
where
  /-- An option; what is none and holds a space is taken for a text. -/
  flagOrText (name : List Char) (value : Option String) : Argument :=
    match flagOf name value with
    | .unknownFlag => if argument.toList.contains ' ' then .plain else .unknownFlag
    | a => a

/-- Starts the server with the engine of a reference. -/
def start (engine : Option String) : Command :=
  match engine with
  | none => .refuse "no compiler engine configured"
  | some reference =>
    if reference.isEmpty then .refuse "no compiler engine configured"
    else if reference = builtInEngine then .serve
    else .refuse ("cannot load engine: " ++ reference)

/-- The refusal of an option without its value. -/
def missingValue : Command := .refuse "argument --engine: expected one argument"

/-- The refusal of arguments that are not understood. -/
def unrecognised : Command := .refuse "unrecognized arguments"

/-- Reads arguments in order; `engine` is the one chosen so far, and `strays` says whether some
argument was not understood. -/
def ofRest (engine : Option String) (strays : Bool) : List String → Command
  | [] => if strays then unrecognised else start engine
  | argument :: rest =>
    if argument = "--" then unrecognised
    else
      match classify argument with
      | .plain => ofRest engine true rest
      | .unknownFlag => ofRest engine true rest
      | .ambiguous => .refuse "ambiguous option"
      | .flag .help none => .help
      | .flag .version none => .version
      | .flag .engine (some value) => ofRest (some value) strays rest
      | .flag _ (some _) => .refuse "ignored explicit argument"
      | .flag .engine none =>
        match rest with
        | [] => missingValue
        | "--" :: [] => missingValue
        | "--" :: value :: rest =>
          if strays || !rest.isEmpty then unrecognised else start (some value)
        | value :: "--" :: rest =>
          if classify value ≠ .plain then missingValue
          else if strays || !rest.isEmpty then unrecognised else start (some value)
        | value :: rest =>
          if classify value = .plain then ofRest (some value) strays rest else missingValue

/-- Reads the command line; without an engine on it the given one is used. -/
def ofArguments (arguments : List String) (engine : Option String) : Command :=
  ofRest engine false arguments

/-- The environment of the server on a file system. -/
def environment (files : FileSystem) : Environment :=
  { files, engines := fun _ => Toy.engine Toy.ampleBudget, reporter := serverId.name }

/-- The capabilities of the server on a file system. -/
def capabilities (files : FileSystem) : Capabilities Workspace :=
  Capabilities.ofCompiler (environment files) serverId

/-- The session before anything has happened. -/
def newSession : Session Workspace := { host := .empty }

/-- How the program ends: its exit status, what it prints, and the session it had. -/
structure Outcome where
  status : Nat
  printed : String
  course : Option (Course Workspace)

/-- The exit status of a session. -/
def statusOf (c : Course Workspace) : Nat := if c.isOrderly then 0 else 1

/-- Does what the command line asks for, on a file system and a stream of bytes. -/
def run (files : FileSystem) (input : ByteStream) : Command → Outcome
  | .serve =>
    let c := Session.serve (capabilities files) newSession input
    ⟨statusOf c, "", some c⟩
  | .version => ⟨0, (serverId.version.getD "") ++ "\n", none⟩
  | .help => ⟨0, "usage: compilerls [-h] [--engine ENGINE] [--version]\n", none⟩
  | .refuse _ => ⟨2, "", none⟩

end Command

end LanguageServer
