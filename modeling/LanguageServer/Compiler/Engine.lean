import LanguageServer.Compiler.Program
import LanguageServer.Files.FileSystem
import LanguageServer.Settings.Remapping

/-!
# Engines

The server parses and checks nothing itself: an engine does.  An engine is handed the
texts of all tracked sources, the remappings and the target version, and it may ask for
sources that it was not given.  So a compilation is either finished or a question
together with what follows each answer.

## Main definitions

* `ReadFailure` — why a source that an engine asks for is not served.
* `Compiling` — a finished computation, or a question and what follows.
* `Engine` — what target versions it accepts, and how it compiles.
-/

namespace LanguageServer

/-- Why a source that an engine asks for is not served. -/
inductive ReadFailure where
  | unsupportedKind (kind : String)
  | noBase (path : String)
  | outside (path : String)
  | inaccessible (path : String) (cause : AccessError)
  deriving DecidableEq, Repr

/-- The wording of a failure. -/
def ReadFailure.message : ReadFailure → String
  | .unsupportedKind kind => "Unsupported read kind: " ++ kind
  | .noBase path => "Cannot resolve relative path " ++ path
  | .outside path => path ++ " is outside of the allowed directories"
  | .inaccessible path (.notText _) => "Cannot read " ++ path
  | .inaccessible path cause => "Cannot read " ++ path ++ ": " ++ cause.message

/-- What an engine gets when it asks for a source. -/
abbrev ReadOutcome := Except ReadFailure String

/-- The kind of question that asks for the text of an imported source. -/
def sourceKind : String := "source"

/-- A computation of an engine, which may ask for sources on its way. -/
inductive Compiling (α : Type) where
  /-- The computation ended. -/
  | done (result : α)
  /-- The engine broke down. -/
  | failed (reason : String)
  /-- The engine asks for a source and goes on with the answer. -/
  | ask (kind path : String) (next : ReadOutcome → Compiling α)
  /-- The engine gave up before the end because it exceeded its budget. -/
  | unfinished

/-- The course of a compilation. -/
abbrev Compilation := Compiling Program

namespace Compiling

variable {α β : Type}

/-- Goes on with the result of a computation. -/
def andThen : Compiling α → (α → Compiling β) → Compiling β
  | .done a, f => f a
  | .failed reason, _ => .failed reason
  | .ask kind path next, f => .ask kind path fun r => (next r).andThen f
  | .unfinished, _ => .unfinished

instance : Monad Compiling where
  pure := .done
  bind := andThen

/-- Asks for a source. -/
def request (kind path : String) : Compiling ReadOutcome := .ask kind path .done

/-- The outcome of a computation whose questions are answered by a function, with the questions in
order; no result if it breaks down or does not end. -/
def runWith (answer : String → String → ReadOutcome) :
    Compiling α → Option α × List (String × String)
  | .done a => (some a, [])
  | .failed _ => (none, [])
  | .ask kind path next =>
    let (r, asked) := (next (answer kind path)).runWith answer
    (r, (kind, path) :: asked)
  | .unfinished => (none, [])

@[simp] theorem runWith_done (answer : String → String → ReadOutcome) (a : α) :
    (done a).runWith answer = (some a, []) := rfl

/-- Running two computations in turn asks the questions of the first, then those of the second. -/
theorem runWith_andThen (answer : String → String → ReadOutcome) (c : Compiling α)
    (f : α → Compiling β) :
    (c.andThen f).runWith answer =
      match c.runWith answer with
      | (some a, asked) => (((f a).runWith answer).1, asked ++ ((f a).runWith answer).2)
      | (none, asked) => (none, asked) := by
  induction c with
  | done a => simp [andThen, runWith]
  | failed reason => rfl
  | unfinished => rfl
  | ask kind path next ih =>
    simp only [andThen, runWith, ih]
    split <;> simp_all

end Compiling

/-- What an engine is handed. -/
structure EngineInput where
  /-- The texts of the tracked sources by name. -/
  sources : Table String String
  remappings : List Remapping
  /-- The target version, if one is set and the engine accepted it. -/
  targetVersion : Option String

/-- A compiler for whole programs. -/
structure Engine where
  /-- Accepts a target version, or says why not. -/
  accepts : Option String → Except String Unit
  compile : EngineInput → Compilation

/-- The engines of a session: each compilation has an engine of its own, and they are counted from
zero. -/
abbrev EngineFactory := Nat → Engine

/-- The wording with which an engine refuses a target version. -/
def unsupportedVersion (version : String) : String := "unsupported target version " ++ version

/-- Accepts the versions of a list, and that none is set. -/
def acceptListed (versions : List String) : Option String → Except String Unit
  | none => .ok ()
  | some v => if v ∈ versions then .ok () else .error (unsupportedVersion v)

end LanguageServer
