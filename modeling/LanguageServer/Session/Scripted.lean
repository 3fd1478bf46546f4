import LanguageServer.Session.Capabilities

/-!
# Scripted capabilities

Capabilities that note what they are asked for and then do what a script says.  They
serve to try out a session without a compiler.

## Main definitions

* `Script` — what to do when asked for something.
* `Call` — what was asked for.
* `Capabilities.scripted` — the capabilities that follow scripts.
-/

namespace LanguageServer

/-- What to do when asked for something, in this order. -/
structure Script where
  /-- Publishes that these documents have no diagnostics. -/
  pushes : List (String × Option Int) := []
  logs : List String := []
  traces : List (String × Option String) := []
  /-- Breaks down for this reason. -/
  breakdown : Option String := none
  refusal : Option RequestError := none
  id : Option ServerId := none
  locations : List Location := []
  /-- Highlights whose kinds are bare numbers. -/
  highlights : List (Range × Int) := []

/-- What was asked for: the name of the request, and what came with it. -/
inductive Call where
  | initialise (root : Json) (folders : List WorkspaceFolder) (options : Json)
  | initialised
  | changeConfiguration (settings : Json)
  | documentOpened (d : Params.Opened)
  | documentChanged (uri : Json) (version : Option Int) (changes : List ContentChange)
  | documentClosed (uri : String)
  | definition (uri : String) (p : Position)
  | references (uri : String) (p : Position)
  | highlights (uri : String) (p : Position)

/-- The scripts for all requests. -/
structure Scripts where
  initialise : Script := {}
  initialised : Script := {}
  changeConfiguration : Script := {}
  documentOpened : Script := {}
  documentChanged : Script := {}
  documentClosed : Script := {}
  definition : Script := {}
  references : Script := {}
  highlights : Script := {}

namespace Script

/-- Says what the script says, then fails if it says so. -/
def play (script : Script) : Action (List Call) Unit := do
  Action.forAll (fun p => Action.say (.publish p.1 p.2 [])) script.pushes
  Action.forAll (fun m => Action.say (.log .log m)) script.logs
  Action.forAll (fun t => Action.say (.trace t.1 t.2)) script.traces
  match script.breakdown, script.refusal with
  | some reason, _ => Action.stop (.engine reason)
  | none, some e => Action.stop (.refused e)
  | none, none => return

/-- The highlights of the script.  A kind has a name, from which it gets its number; a bare number
has none, so only the empty answer can be sent. -/
def encodeHighlights (script : Script) : Action (List Call) (List Highlight) :=
  match script.highlights with
  | [] => return []
  | _ => Action.stop .lacking

/-- Notes a call and plays the script for it. -/
def answer (script : Script) (call : Call) : Action (List Call) Unit := do
  Action.update (· ++ [call])
  script.play

end Script

/-- Capabilities that follow scripts; without another identity they present themselves as `id`. -/
def Capabilities.scripted (id : ServerId) (scripts : Scripts) : Capabilities (List Call) where
  initialise root folders options := do
    scripts.initialise.answer (.initialise root folders options)
    return scripts.initialise.id.getD id
  initialised := scripts.initialised.answer .initialised
  changeConfiguration settings :=
    scripts.changeConfiguration.answer (.changeConfiguration settings)
  documentOpened d := scripts.documentOpened.answer (.documentOpened d)
  documentChanged uri version changes :=
    scripts.documentChanged.answer (.documentChanged uri version changes)
  documentClosed uri := scripts.documentClosed.answer (.documentClosed uri)
  definition uri p := do
    scripts.definition.answer (.definition uri p)
    return scripts.definition.locations
  references uri p := do
    scripts.references.answer (.references uri p)
    return scripts.references.locations
  highlights uri p := do
    scripts.highlights.answer (.highlights uri p)
    scripts.highlights.encodeHighlights

end LanguageServer
