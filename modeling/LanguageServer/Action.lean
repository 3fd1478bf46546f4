import LanguageServer.Compiler.Engine
import LanguageServer.Diagnostic
import LanguageServer.Fault

/-!
# Actions

An operation of the server reads and changes a state, and on its way it says things to
the outside: it logs, publishes diagnostics, and calls the engine.  What it says is
listed rather than done.  Whoever runs the operation delivers the list, and delivery may
fail; therefore each entry also holds the state in which the operation stops if this
entry cannot be delivered.

## Main definitions

* `Effect` — what an operation says to the outside.
* `Run` — what a run of an operation says, how it ends, and in which state.
* `Action` — operations.
* `Run.deliver` — delivers what a run says, up to the first failure.
-/

namespace LanguageServer

/-! ## What is said to the outside -/

/-- How important a log entry is. -/
inductive LogLevel where
  | error
  | warning
  | info
  | log
  | debug
  deriving DecidableEq, Repr

/-- All levels in the order of their numbers. -/
def LogLevel.all : List LogLevel := [.error, .warning, .info, .log, .debug]

/-- The number of a level on the wire. -/
def LogLevel.number : LogLevel → Int
  | .error => 1
  | .warning => 2
  | .info => 3
  | .log => 4
  | .debug => 5

/-- What is exchanged with an engine. -/
inductive EngineCall where
  | sources (texts : Table String String)
  | remappings (rules : List Remapping)
  | targetVersion (version : Option String)
  | read (outcome : ReadOutcome)

/-- What an operation says to the outside. -/
inductive Effect where
  /-- Shows a message in the client's log. -/
  | log (level : LogLevel) (message : String)
  /-- Replaces the diagnostics that the client shows for a document. -/
  | publish (uri : String) (version : Option Int) (diagnostics : List Diagnostic)
  /-- Tells the client what the server does, if the client wants to hear it. -/
  | trace (message : String) (verbose : Option String)
  /-- Exchanges something with the engine. -/
  | engine (call : EngineCall)

/-! ## Runs -/

universe u v

/-- A run of an operation: what it said, each with the state that is left if it cannot be delivered,
how it ended, and in which state. -/
structure Run (σ : Type u) (α : Type v) where
  said : List (Effect × σ)
  result : Except Fault α
  state : σ

/-- Operations on a state. -/
def Action (σ : Type u) (α : Type v) : Type (max u v) := σ → Run σ α

namespace Action

variable {σ : Type} {α β : Type}

/-- Runs an operation. -/
def run (a : Action σ α) (s : σ) : Run σ α := a s

/-- Only yields a value. -/
protected def pure (a : α) : Action σ α := fun s => ⟨[], .ok a, s⟩

/-- One operation, then another with its result.  A fault skips what follows. -/
protected def bind (a : Action σ α) (f : α → Action σ β) : Action σ β := fun s =>
  match a s with
  | ⟨said, .ok x, s'⟩ =>
    let r := f x s'
    ⟨said ++ r.said, r.result, r.state⟩
  | ⟨said, .error e, s'⟩ => ⟨said, .error e, s'⟩

instance : Monad (Action σ) where
  pure := Action.pure
  bind := Action.bind

/-- The state. -/
def state : Action σ σ := fun s => ⟨[], .ok s, s⟩

/-- Changes the state. -/
def update (f : σ → σ) : Action σ Unit := fun s => ⟨[], .ok (), f s⟩

/-- Stops with a fault. -/
def stop (e : Fault) : Action σ α := fun s => ⟨[], .error e, s⟩

/-- Says something to the outside. -/
def say (e : Effect) : Action σ Unit := fun s => ⟨[(e, s)], .ok (), s⟩

/-- Takes over a result, with its error as a fault. -/
def ofExcept {ε : Type} (fault : ε → Fault) : Except ε α → Action σ α
  | .ok a => Action.pure a
  | .error e => stop (fault e)

/-- An operation for each member of a list, in order. -/
def forAll {ι : Type} (f : ι → Action σ Unit) : List ι → Action σ Unit
  | [] => Action.pure ()
  | i :: rest => Action.bind (f i) fun _ => forAll f rest

/-! ## What each operation says, yields and leaves -/

@[simp] theorem run_pure (a : α) (s : σ) : (pure a : Action σ α).run s = ⟨[], .ok a, s⟩ := rfl

@[simp] theorem run_state (s : σ) : (state : Action σ σ).run s = ⟨[], .ok s, s⟩ := rfl

@[simp] theorem run_update (f : σ → σ) (s : σ) : (update f).run s = ⟨[], .ok (), f s⟩ := rfl

@[simp] theorem run_stop (e : Fault) (s : σ) :
    (stop e : Action σ α).run s = ⟨[], .error e, s⟩ := rfl

@[simp] theorem run_say (e : Effect) (s : σ) : (say e).run s = ⟨[(e, s)], .ok (), s⟩ := rfl

theorem run_bind_ok {a : Action σ α} {f : α → Action σ β} {s s' : σ} {x : α}
    {said : List (Effect × σ)} (h : a.run s = ⟨said, .ok x, s'⟩) :
    (a >>= f).run s =
      ⟨said ++ ((f x).run s').said, ((f x).run s').result, ((f x).run s').state⟩ := by
  show Action.bind a f s = _
  unfold Action.bind
  rw [show a s = _ from h]
  rfl

theorem run_bind_error {a : Action σ α} {f : α → Action σ β} {s s' : σ} {e : Fault}
    {said : List (Effect × σ)} (h : a.run s = ⟨said, .error e, s'⟩) :
    (a >>= f).run s = ⟨said, .error e, s'⟩ := by
  show Action.bind a f s = _
  unfold Action.bind
  rw [show a s = _ from h]

end Action

/-! ## Delivery -/

/-- Who is told what an operation says: it has a state of its own, and it may fail. -/
abbrev Recipient (κ : Type) := Effect → EStateM Fault κ Unit

/-- Delivers entries in order, up to the first failure: the recipient's state, and the failure with
the state that the operation is left in. -/
def deliverAll {σ κ : Type} (recipient : Recipient κ) (k : κ) :
    List (Effect × σ) → κ × Option (Fault × σ)
  | [] => (k, none)
  | (e, s) :: rest =>
    match recipient e k with
    | .ok () k => deliverAll recipient k rest
    | .error fault k => (k, some (fault, s))

/-- Delivers what a run says.  A failure of delivery takes the place of the result. -/
def Run.deliver {σ κ α : Type} (recipient : Recipient κ) (k : κ) (r : Run σ α) :
    κ × Except Fault α × σ :=
  match deliverAll recipient k r.said with
  | (k, none) => (k, r.result, r.state)
  | (k, some (fault, s)) => (k, .error fault, s)

end LanguageServer
