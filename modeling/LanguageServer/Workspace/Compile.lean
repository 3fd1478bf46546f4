import LanguageServer.Workspace.Basic

/-!
# Compiling a workspace

Compiling is always about the whole program: the engine is handed the texts of all
tracked documents.  What it asks for besides is served from those texts first, and from
disk only inside the allowed directories.

A compilation that fails leaves the latest program in place.

## Main definitions

* `Workspace.serveSource` — serves a source to the engine.
* `Workspace.compile` — one compilation.
* `Workspace.upToDate` — the latest program, compiled anew if documents changed since.
-/

namespace LanguageServer.Workspace

/-! ## Serving sources -/

/-- Where a source lies that the engine asks for by a path. -/
def locate (ws : Workspace) (path : String) : Except ReadFailure Path :=
  let p := Path.ofString path
  if p.isAbsolute then .ok p
  else
    match ws.base with
    | none => .error (.noBase path)
    | some base => .ok (base.join p)

/-- Whether a link-free path may be read. -/
def mayRead (ws : Workspace) (p : Path) : Bool :=
  ws.allowedDirectories.isEmpty || ws.allowedDirectories.any p.isWithin

/-- The text of a source on disk. -/
def readDisk (files : FileSystem) (ws : Workspace) (path : String) :
    Except PathError ReadOutcome :=
  match ws.locate path with
  | .error failure => .ok (.error failure)
  | .ok p => do
    let p ← files.resolve? p
    if ws.mayRead p then
      match files.readText p with
      | .ok text => return .ok text
      | .error cause => return .error (.inaccessible path cause)
    else return .error (.outside path)

/-- The workspace after a source on disk was asked for. -/
def noteRead (ws : Workspace) (path : String) : ReadOutcome → Workspace
  | .ok text => { ws with readTexts := ws.readTexts.insert path text }
  | .error failure => { ws with readFailures := ws.readFailures.insert path failure }

/-- Serves a source to the engine.  Texts that the engine was handed win over files. -/
def serveSource (files : FileSystem) (kind path : String) : Action Workspace ReadOutcome := do
  if kind ≠ sourceKind then return .error (.unsupportedKind kind)
  let ws ← Action.state
  match ws.sources.find? path with
  | some text => return .ok text
  | none =>
    let outcome ← Action.ofExcept .path (readDisk files ws path)
    Action.update (·.noteRead path outcome)
    return outcome

/-- Answers the questions of a compilation until it ends. -/
def serve (files : FileSystem) : Compilation → Action Workspace Program
  | .done program => return program
  | .failed reason => Action.stop (.engine reason)
  | .unfinished => Action.stop .endless
  | .ask kind path next => do
    let outcome ← serveSource files kind path
    Action.say (.engine (.read outcome))
    serve files (next outcome)

/-! ## One compilation -/

/-- The URIs and the texts of documents by source name.  A URI that cannot be taken apart ends the
list; the URIs before it are kept. -/
def nameDocuments (uris texts : Table String String) :
    List Document → Table String String × Except Uri.UriError (Table String String)
  | [] => (uris, .ok texts)
  | d :: rest =>
    match sourceNameFor d.uri with
    | .error e => (uris, .error e)
    | .ok name => nameDocuments (uris.insert name d.uri) (texts.insert name d.content) rest

/-- The wording for a refused target version. -/
def refusedVersionMessage (version : Option String) (reason : String) : String :=
  "Target version " ++ (version.map Text.quotedString).getD (Data.literalString .null)
    ++ " rejected: " ++ reason

/-- Offers a target version to an engine.  A refusal is logged once until another version is
refused, and the engine then works without a target version. -/
def offerVersion (engine : Engine) (version : Option String) :
    Action Workspace (Option String) := do
  match engine.accepts version with
  | .ok () => return version
  | .error reason =>
    if (← Action.state).refusedVersion ≠ version then
      Action.update fun ws => { ws with refusedVersion := version }
      Action.say (.log .error (refusedVersionMessage version reason))
    return none

/-- The workspace after a compilation succeeded. -/
def settle (ws : Workspace) (program : Program) : Workspace :=
  { ws with
    sources := ws.readTexts.entries.foldl (fun t e => t.insert e.1 e.2) ws.sources
    indexes := .empty
    snapshot := some ⟨program, ws.store.generation⟩ }

/-- Compiles all tracked documents. -/
def compile (env : Environment) : Action Workspace Program := do
  let ws ← Action.state
  let (uris, named) := nameDocuments .empty .empty ws.store.toList
  Action.update fun ws => { ws with uris }
  let sources ← Action.ofExcept .uri named
  Action.update fun ws =>
    { ws with
      sources, readTexts := .empty, readFailures := .empty
      compilations := ws.compilations + 1 }
  let engine := env.engines ws.compilations
  let rules := ws.configuration.remappings
  Action.say (.engine (.sources sources))
  Action.say (.engine (.remappings rules))
  Action.say (.engine (.targetVersion ws.configuration.targetVersion))
  let targetVersion ← offerVersion engine ws.configuration.targetVersion
  let program ← serve env.files (engine.compile { sources, remappings := rules, targetVersion })
  Action.update (·.settle program)
  return program

/-- The latest program, unless documents changed since; then a new one. -/
def upToDate (env : Environment) : Action Workspace Program := do
  let ws ← Action.state
  match ws.snapshot with
  | some s => if s.generation = ws.store.generation then return s.program else compile env
  | none => compile env

end LanguageServer.Workspace
