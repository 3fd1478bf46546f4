import LanguageServer.Navigation
import LanguageServer.Session.Capabilities
import LanguageServer.Workspace.Garbage

/-!
# Capabilities backed by a compiler

Documents are kept in a workspace and compiled when they change; queries are answered
from the latest program.

Opening a document publishes the diagnostics of that document only.  A change may show
in any other document, so it publishes those of all.  Closing a document forgets those
that no open one imports.

## Main definitions

* `openRoot` — takes up the root of a workspace with its configuration file.
* `applySettings` — applies settings of the client.
* `Capabilities.ofCompiler` — the capabilities.
-/

namespace LanguageServer

open Workspace

/-- Refuses a request. -/
def refuseParams {α : Type} (message : String) : Action Workspace α :=
  Action.stop (.refused (.of .invalidParams message))

/-! ## Preparation -/

/-- Applies settings of the client; entries that are refused are logged. -/
def applySettings (env : Environment) (settings : Json) : Action Workspace Unit := do
  let ws ← Action.state
  let (configuration, outcome) := ws.configuration.update env.files ws.base settings.toData
  Action.update fun ws => { ws with configuration }
  let refused ← Action.ofExcept .path outcome
  Action.forAll
    (fun e => Action.say (.log .error ("Invalid configuration: " ++ e.message))) refused

/-- The root of the workspace as the client names it: the root itself, or the first folder. -/
def chosenRoot (root : Json) (folders : List WorkspaceFolder) : Json :=
  match root with
  | .null => (folders.head?.map (·.uri)).getD .null
  | v => v

/-- The directory that a root names. -/
def rootDirectory (env : Environment) (uri : String) : Action Workspace Path := do
  let path ← if Text.beginsWith "file:" uri then Action.ofExcept .uri (Uri.toPath? uri)
    else pure none
  match path with
  | none => refuseParams ("Workspace root must be a file URI: " ++ uri)
  | some path => Action.ofExcept .path (env.files.resolve? (Path.ofString path))

/-- First the path that the root names is read, and then the directory of that path. -/
theorem rootDirectory_eq (env : Environment) (uri : String) :
    rootDirectory env uri =
      (if Text.beginsWith "file:" uri then Action.ofExcept .uri (Uri.toPath? uri)
        else pure none : Action Workspace (Option String)) >>= fun path =>
          path.elim (refuseParams ("Workspace root must be a file URI: " ++ uri)) fun path =>
            Action.ofExcept .path (env.files.resolve? (Path.ofString path)) := by
  unfold rootDirectory
  by_cases hfile : Text.beginsWith "file:" uri = true
  · rw [if_pos hfile, if_pos hfile]
    exact congrArg _ (funext fun path => by cases path <;> rfl)
  · rw [if_neg hfile, if_neg hfile]
    exact congrArg _ (funext fun path => by cases path <;> rfl)

/-- Takes up the root of a workspace.  A configuration file that is refused is logged, and the
defaults hold. -/
def openRoot (env : Environment) (uri : String) : Action Workspace Unit := do
  let base ← rootDirectory env uri
  Action.update fun ws => { ws with base := some base }
  match Configuration.load env.files base with
  | .ok configuration => Action.update fun ws => { ws with configuration }
  | .error (.refused e) =>
    Action.say (.log .error e.message)
    Action.update fun ws => { ws with configuration := {} }
  | .error .notText => Action.stop .fileNotText
  | .error (.unresolvable e) => Action.stop (.path e)

/-- Prepares the workspace for a client. -/
def prepare (env : Environment) (id : ServerId) (root : Json) (folders : List WorkspaceFolder)
    (options : Json) : Action Workspace ServerId := do
  match chosenRoot root folders with
  | .null => pure ()
  | .str uri => openRoot env uri
  | _ => Action.stop .lacking
  applySettings env options
  return id

/-! ## Documents -/

/-- Refuses a document that is not tracked. -/
def require (uri : String) : Action Workspace Unit := do
  if (← Action.state).store.contains uri then return
  else refuseParams (StoreError.unknown uri).message

/-- The tracked document that a value of the client names. -/
def requireValue : Json → Action Workspace String
  | .str uri => do
    require uri
    return uri
  | .arr _ => Action.stop .notKey
  | .obj _ => Action.stop .notKey
  | v => refuseParams (StoreError.unknown (Params.text v)).message

/-- Tracks an opened document and publishes its diagnostics. -/
def openDocument (env : Environment) (d : Params.Opened) : Action Workspace Unit := do
  Action.update fun ws =>
    { ws with store := ws.store.track d.uri d.language (some d.version) d.content }
  validate env d.uri

/-- Applies the changes of a document, all or none, and publishes the diagnostics of all
documents. -/
def changeDocument (env : Environment) (uri : Json) (version : Option Int)
    (changes : List ContentChange) : Action Workspace Unit := do
  let uri ← requireValue uri
  match (← Action.state).store.applyEdits uri version (changes.filterMap ContentChange.edit?) with
  | .ok store => Action.update fun ws => { ws with store }
  | .error e => refuseParams e.message
  validateAll env

/-- Closes a document and forgets what is no longer needed. -/
def closeDocument (uri : String) : Action Workspace Unit := do
  require uri
  let store ← Action.ofExcept .store ((← Action.state).store.close uri)
  Action.update fun ws => { ws with store }
  clear uri
  let _ ← collectGarbage

/-- Applies new settings and, if there are documents, publishes the diagnostics of all. -/
def changeSettings (env : Environment) (settings : Json) : Action Workspace Unit := do
  applySettings env settings
  if (← Action.state).store.size ≠ 0 then validateAll env

/-! ## Queries -/

/-- Answers a query about a tracked document from an up-to-date program. -/
def query {α : Type} (env : Environment)
    (answer : Program → String → Position → Action Workspace α) (uri : String) (p : Position) :
    Action Workspace α := do
  require uri
  let program ← upToDate env
  let source ← Action.ofExcept .uri (sourceNameFor uri)
  answer program source p

/-- The capabilities of a server with a compiler. -/
def Capabilities.ofCompiler (env : Environment) (id : ServerId) : Capabilities Workspace where
  initialise := prepare env id
  initialised := return
  changeConfiguration := changeSettings env
  documentOpened := openDocument env
  documentChanged := changeDocument env
  documentClosed := closeDocument
  definition := query env Navigation.definition
  references := query env Navigation.references
  highlights := query env Navigation.highlights

end LanguageServer
