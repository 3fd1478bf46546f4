import LanguageServer.Framing
import LanguageServer.Session.Dispatch

/-!
# Running a session

A session goes on until the client exits, the stream ends, or the channel fails.  It is
orderly if it ends by an exit after a shutdown.

## Main definitions

* `Event` — what can happen to a session.
* `Session.step` — what one event does.
* `Session.runAll` — a session from its first event to its end.
* `Session.serve` — a session over a stream of bytes.
-/

namespace LanguageServer

/-- What can happen to a session. -/
inductive Event where
  /-- Something arrives from the client. -/
  | arrival (r : Received)
  /-- The server says something of its own accord. -/
  | remark (e : Effect)
  /-- The server sends an error response of its own accord. -/
  | complaint (id : Json) (error : RequestError)
  /-- The next sends fail. -/
  | failSends (n : Nat)

/-- The course of a session: the session after each event, with what was sent during it; the last
session; the fault that stopped it, if there was one besides a failure of the channel; and the events
that were left. -/
structure Course (γ : Type) where
  steps : List (Session γ)
  last : Session γ
  fault : Option Fault
  unread : List Event

/-- Whether the session ended by an exit after a shutdown. -/
def Course.isOrderly {γ : Type} (c : Course γ) : Bool :=
  c.last.lifecycle == .exited && c.last.shutdownRequested

/-- All that was sent, in order. -/
def Course.sent {γ : Type} (c : Course γ) : List Outbound := c.steps.flatMap (·.outbox)

namespace Session

open Serving

variable {γ : Type}

/-- What one event does. -/
def step (caps : Capabilities γ) : Event → Serving γ Unit
  | .arrival (.message v) => receive caps v
  | .arrival (.malformed reason) => send (.failure .null (.of .parseError reason))
  | .arrival (.failed reason) => throw (.channel reason)
  | .arrival .oversized => throw .oversized
  | .arrival .closed => pure ()
  | .remark e => hear e
  | .complaint id error => send (.failure id error)
  | .failSends n => update fun s => { s with failing := n }

/-- Whether the event is the end of the stream. -/
def isClosing : Event → Bool
  | .arrival .closed => true
  | _ => false

/-- The session with an empty outbox. -/
def cleared (s : Session γ) : Session γ := { s with outbox := [], calls := [] }

/-- Runs a session on events until it ends. -/
def runAll (caps : Capabilities γ) (s : Session γ) : List Event → Course γ
  | [] => ⟨[], s, none, []⟩
  | e :: rest =>
    if s.lifecycle = .exited then ⟨[], s, none, e :: rest⟩
    else if isClosing e then ⟨[s.cleared], s.cleared, none, rest⟩
    else
      match step caps e s.cleared with
      | .ok () s' =>
        let c := runAll caps s' rest
        { c with steps := s' :: c.steps }
      | .error (.channel _) s' => ⟨[s'], s', none, rest⟩
      | .error f s' => ⟨[s'], s', some f, rest⟩

/-- Runs a session over a stream of bytes. -/
def serve (caps : Capabilities γ) (s : Session γ) (stream : ByteStream) : Course γ :=
  runAll caps s (stream.receiveAll.1.map .arrival)

end Session

end LanguageServer
