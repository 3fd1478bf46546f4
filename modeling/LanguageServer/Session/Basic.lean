import LanguageServer.Session.Capabilities
import LanguageServer.Session.Outbound
import LanguageServer.Session.Trace

/-!
# Sessions

A session is the state of a conversation with one client.  While a message is being
handled, diagnostics are held back; they are sent behind the response.

What is sent is put into an outbox.  Sending may fail, and then the session cannot go
on; for a trial some of the next sends can be made to fail.

## Main definitions

* `Lifecycle` — how far a session has come.
* `Session` — the state of a conversation.
* `Serving` — operations of a session; a fault keeps the state.
* `Serving.send`, `Serving.hear` — sends a message, or what capabilities say.
* `Serving.perform` — runs an action of the capabilities.
-/

namespace LanguageServer

/-- How far a session has come. -/
inductive Lifecycle where
  | uninitialized
  | initialized
  | shuttingDown
  | exited
  deriving DecidableEq, Repr

/-- The state of a conversation; `host` is the state of the capabilities. -/
structure Session (γ : Type) where
  lifecycle : Lifecycle := .uninitialized
  trace : Trace := .off
  /-- Whether a shutdown was accepted. -/
  shutdownRequested : Bool := false
  /-- Whether a message is being handled. -/
  dispatching : Bool := false
  /-- Diagnostics held back until the message is handled. -/
  deferred : List Outbound := []
  /-- What was sent, in order. -/
  outbox : List Outbound := []
  /-- What was exchanged with engines, in order. -/
  calls : List EngineCall := []
  /-- How many of the next sends fail. -/
  failing : Nat := 0
  host : γ

/-- Operations of a session.  A fault keeps the state in which it arises. -/
abbrev Serving (γ α : Type) := EStateM Fault (Session γ) α

namespace Serving

variable {γ α : Type}

/-- Changes the session. -/
def update (f : Session γ → Session γ) : Serving γ Unit := modify f

/-- Refuses a request. -/
def refuse (kind : ErrorKind) (message : String) : Serving γ α :=
  throw (.refused (.of kind message))

/-- Takes over a result; an error refuses the request. -/
def ofExcept : Except RequestError α → Serving γ α
  | .ok a => pure a
  | .error e => throw (.refused e)

/-- Yields a result or the fault that took its place, and goes on. -/
def outcome (x : Serving γ α) : Serving γ (Except Fault α) := fun s =>
  match x s with
  | .ok a s' => .ok (.ok a) s'
  | .error e s' => .ok (.error e) s'

/-- Changes the session behind an operation, whether it fails or not. -/
def eventually (x : Serving γ α) (f : Session γ → Session γ) : Serving γ α := fun s =>
  match x s with
  | .ok a s' => .ok a (f s')
  | .error e s' => .error e (f s')

/-! ## Sending -/

/-- Sends a message. -/
def send (m : Outbound) : Serving γ Unit := fun s =>
  match s.failing with
  | 0 => .ok () { s with outbox := s.outbox ++ [m] }
  | n + 1 => .error (.channel "send failed") { s with failing := n }

/-- Sends messages in order. -/
def sendAll : List Outbound → Serving γ Unit
  | [] => pure ()
  | m :: rest => do
    send m
    sendAll rest

/-- Sends diagnostics, or holds them back while a message is being handled.  A version that the
protocol cannot express is a fault. -/
def push (uri : String) (version : Option Int) (diagnostics : List Diagnostic) :
    Serving γ Unit := do
  match version.filter (!Params.isVersion ·) with
  | some v => throw (.versionRange v)
  | none =>
    let m := Outbound.publish uri version diagnostics
    if (← get).dispatching then update fun s => { s with deferred := s.deferred ++ [m] }
    else send m

/-- Sends a trace, if the client wants to hear it; only a verbose one has details. -/
def tell (message : String) (verbose : Option String) : Serving γ Unit := do
  match (← get).trace with
  | .off => pure ()
  | .messages => send (.trace message none)
  | .verbose => send (.trace message verbose)

/-- Hears what capabilities say. -/
def hear : Effect → Serving γ Unit
  | .log level message => send (.log level message)
  | .publish uri version diagnostics => push uri version diagnostics
  | .trace message verbose => tell message verbose
  | .engine call => update fun s => { s with calls := s.calls ++ [call] }

/-- Runs an action of the capabilities and delivers what it says. -/
def perform (a : Action γ α) : Serving γ α := fun s =>
  match (a.run s.host).deliver hear s with
  | (s', .ok x, host) => .ok x { s' with host }
  | (s', .error e, host) => .error e { s' with host }

/-- Sends what was held back. -/
def flush : Serving γ Unit := do
  let held := (← get).deferred
  update fun s => { s with deferred := [] }
  sendAll held

end Serving

end LanguageServer
