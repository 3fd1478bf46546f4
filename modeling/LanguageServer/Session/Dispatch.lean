import LanguageServer.Json.Printer
import LanguageServer.Session.Basic

/-!
# Handling messages

A message is a request if it has an identifier, and a notification if it has none.  A
session begins with an initialisation; before it other requests are refused and
notifications dropped.  After a shutdown only an exit is accepted.

A request gets exactly one response.  A notification that fails is logged.

## Main definitions

* `Method` — the methods that a session knows.
* `Session.handle` — what a method does.
* `Session.accepts` — the rules of the lifecycle.
* `Session.receive` — handles one decoded message.
-/

namespace LanguageServer

/-- The methods that a session knows. -/
inductive Method where
  | initialise
  | initialised
  | shutdown
  | exit
  | setTrace
  | cancelRequest
  | didChangeConfiguration
  | didOpen
  | didChange
  | didClose
  | definition
  | documentHighlight
  | references
  deriving DecidableEq, Repr

namespace Method

/-- The name of a method on the wire. -/
def name : Method → String
  | .initialise => "initialize"
  | .initialised => "initialized"
  | .shutdown => "shutdown"
  | .exit => "exit"
  | .setTrace => "$/setTrace"
  | .cancelRequest => "$/cancelRequest"
  | .didChangeConfiguration => "workspace/didChangeConfiguration"
  | .didOpen => "textDocument/didOpen"
  | .didChange => "textDocument/didChange"
  | .didClose => "textDocument/didClose"
  | .definition => "textDocument/definition"
  | .documentHighlight => "textDocument/documentHighlight"
  | .references => "textDocument/references"

/-- All methods. -/
def all : List Method :=
  [.initialise, .initialised, .shutdown, .exit, .setTrace, .cancelRequest,
    .didChangeConfiguration, .didOpen, .didChange, .didClose, .definition, .documentHighlight,
    .references]

/-- The method of a name. -/
def ofName? (name : String) : Option Method := all.find? (·.name = name)

end Method

namespace Session

open Serving

variable {γ : Type}

/-! ## Initialisation -/

/-- The root that the parameters name: a URI, or else a path. -/
def rootOf (params : Json) : Serving γ Json :=
  match params.fieldOrNull "rootUri" with
  | .null =>
    match params.fieldOrNull "rootPath" with
    | .str path =>
      if path.isEmpty then pure .null
      else
        match Uri.ofPath path with
        | .ok uri => pure (.str uri)
        | .error e => throw (.uri e)
    | _ => pure .null
  | root => pure root

/-- A folder of the workspace, if it has a URI. -/
def folder? (v : Json) : Option WorkspaceFolder := do
  return ⟨(v.field? "name").getD (.str ""), ← v.field? "uri"⟩

/-- The folders that the parameters name. -/
def foldersOf (params : Json) : Serving γ (List WorkspaceFolder) :=
  let v := params.fieldOrNull "workspaceFolders"
  if !v.isTruthy then pure []
  else
    match v with
    | .arr items => pure (items.filterMap folder?)
    | .obj _ => pure []
    | .str _ => pure []
    | _ => throw .notItems

/-- The trace level that the parameters name; without one it stays. -/
def traceOf (params : Json) : Serving γ Trace := do
  match params.fieldOrNull "trace" with
  | .null => return (← get).trace
  | v =>
    match Trace.parse v with
    | .ok t => return t
    | .error message => refuse .invalidParams message

/-- What the server can do, as it tells the client. -/
def abilities : Json :=
  .obj
    [("textDocumentSync", .obj [("openClose", .bool true), ("change", .int 2)]),
      ("definitionProvider", .bool true),
      ("referencesProvider", .bool true),
      ("documentHighlightProvider", .bool true)]

/-- The answer to an initialisation. -/
def greeting (id : ServerId) : Json :=
  .obj
    [("capabilities", abilities),
      ("serverInfo",
        Json.objOfSome [("name", some (.str id.name)), ("version", id.version.map .str)])]

/-- Prepares the capabilities; only if that succeeds the session is initialised. -/
def handleInitialise (caps : Capabilities γ) (params : Json) : Serving γ Json := do
  match params with
  | .obj _ =>
    let root ← rootOf params
    let folders ← foldersOf params
    let trace ← traceOf params
    let id ← perform (caps.initialise root folders (params.fieldOrNull "initializationOptions"))
    update fun s => { s with lifecycle := .initialized, trace }
    return greeting id
  | _ => refuse .invalidParams "initialize expects an object."

/-! ## The other methods -/

/-- Sets the trace level. -/
def handleSetTrace (params : Json) : Serving γ Json := do
  match params with
  | .obj _ =>
    match Trace.parse (params.fieldOrNull "value") with
    | .ok trace =>
      update fun s => { s with trace }
      return .null
    | .error message => refuse .invalidParams ("Invalid $/setTrace value: " ++ message)
  | _ => refuse .invalidParams "Invalid $/setTrace value"

/-- Parameters of the expected shape. -/
def structured {α : Type} (expected : String) : Option α → Serving γ α
  | some a => pure a
  | none => refuse .invalidParams ("Invalid " ++ expected)

/-- The document and the position that a query is about. -/
def queried (params : Json) : Serving γ (String × Position) :=
  structured "TextDocumentPositionParams" (Params.documentPosition? params)

/-- The wire form of a list. -/
def listJson {α : Type} (f : α → Json) (l : List α) : Json := .arr (l.map f)

/-- What a method does. -/
def handle (caps : Capabilities γ) (m : Method) (params : Json) : Serving γ Json := do
  match m with
  | .initialise => handleInitialise caps params
  | .initialised =>
    perform caps.initialised
    return .null
  | .shutdown =>
    update fun s => { s with lifecycle := .shuttingDown, shutdownRequested := true }
    return .null
  | .exit =>
    update fun s => { s with lifecycle := .exited }
    return .null
  | .setTrace => handleSetTrace params
  | .cancelRequest =>
    tell "Ignoring $/cancelRequest" none
    return .null
  | .didChangeConfiguration =>
    perform (caps.changeConfiguration (params.fieldOrNull "settings"))
    return .null
  | .didOpen =>
    perform (caps.documentOpened
      (← structured "DidOpenTextDocumentParams" (Params.opened? params)))
    return .null
  | .didChange =>
    let (uri, version, changes) ← ofExcept (Params.changed params)
    perform (caps.documentChanged uri version changes)
    return .null
  | .didClose =>
    perform (caps.documentClosed
      (← structured "DidCloseTextDocumentParams" (Params.documentUri? params)))
    return .null
  | .definition =>
    let (uri, p) ← queried params
    return listJson Location.toJson (← perform (caps.definition uri p))
  | .documentHighlight =>
    let (uri, p) ← queried params
    return listJson Highlight.toJson (← perform (caps.highlights uri p))
  | .references =>
    let (uri, p) ← queried params
    return listJson Location.toJson (← perform (caps.references uri p))

/-! ## The lifecycle -/

/-- Whether a method is accepted.  A request that is not accepted is refused; a notification is
dropped, but for an initialisation at the wrong time.  An exit is always accepted. -/
def accepts (method : String) (isRequest : Bool) : Serving γ Bool := do
  let s ← get
  if method = Method.exit.name then return true
  else
    match s.lifecycle with
    | .uninitialized =>
      if method = Method.initialise.name then return true
      else if isRequest then refuse .serverNotInitialized "Server has not been initialized."
      else return false
    | .shuttingDown =>
      if isRequest then refuse .invalidRequest "Server is shutting down." else return false
    | _ =>
      if method = Method.initialise.name then
        refuse .invalidRequest "Initialize called at the wrong time."
      else return true

/-- Does what an accepted method says.  An unknown request is refused, an unknown notification
ignored. -/
def dispatch (caps : Capabilities γ) (method : String) (params : Json) (isRequest : Bool) :
    Serving γ Json := do
  if ← accepts method isRequest then
    match Method.ofName? method with
    | some m => handle caps m params
    | none =>
      if isRequest then refuse .methodNotFound ("Unknown method " ++ method) else return .null
  else return .null

/-! ## One message -/

/-- Reports a failure: a request is answered with an error, a notification is logged.  A failure of
the channel is passed on. -/
def reportFailure (id : Option Json) (method : String) (f : Fault) : Serving γ Unit :=
  match f, id with
  | .channel reason, _ => throw (.channel reason)
  | .refused e, some id => send (.failure id e)
  | .refused e, none => send (.log .error ("Error handling " ++ method ++ ": " ++ e.message))
  | f, some id =>
    send (.failure id (.of .internalError ("Unhandled exception: " ++ f.description)))
  | f, none => send (.log .error ("Error handling " ++ method ++ ": " ++ f.description))

/-- Responds to a message with its outcome; a notification that succeeds has no response. -/
def respond (id : Option Json) (method : String) : Except Fault Json → Serving γ Unit
  | .ok value =>
    match id with
    | some id => send (.result id value)
    | none => pure ()
  | .error f => reportFailure id method f

/-- What the client is told of a message that arrived. -/
def receivedMessage (method : String) (isRequest : Bool) : String :=
  "Received " ++ (if isRequest then "request" else "notification") ++ " '" ++ method ++ "'"

/-- Handles a message with a method: the trace, the handling, the response, and then the
diagnostics that were held back. -/
def process (caps : Capabilities γ) (id : Option Json) (method : String) (params : Json) :
    Serving γ Unit := do
  tell (receivedMessage method id.isSome) (some (String.ofList (params.print .spaced)))
  update fun s => { s with dispatching := true }
  eventually
    (do respond id method (← outcome (dispatch caps method params id.isSome)))
    (fun s => { s with dispatching := false })
  flush

/-- Whether a value can identify a request. -/
def isIdentifier : Json → Bool
  | .int _ => true
  | .str _ => true
  | _ => false

/-- The response to a message that is no request. -/
def rejectMessage (id : Json) (message : String) : Serving γ Unit :=
  send (.failure id (.of .invalidRequest message))

/-- The parameters of a message; missing ones are an empty object. -/
def paramsOf (message : Json) : Json :=
  match message.fieldOrNull "params" with
  | .null => .obj []
  | params => params

/-- Handles one decoded message.  Responses of the client are ignored. -/
def receive (caps : Capabilities γ) (message : Json) : Serving γ Unit :=
  match message with
  | .obj _ =>
    let id := message.field? "id"
    match message.fieldOrNull "method" with
    | .str method =>
      if id.any (!isIdentifier ·) then
        rejectMessage .null "\"id\" must be an integer or a string."
      else process caps id method (paramsOf message)
    | .null =>
      if (message.field? "result").isSome || (message.field? "error").isSome then pure ()
      else rejectMessage (id.getD .null) "\"method\" has to be a string."
    | _ => rejectMessage (id.getD .null) "\"method\" has to be a string."
  | _ => rejectMessage .null "Message must be a JSON object."

end Session

end LanguageServer
