import LanguageServer.Compiler.Engine

/-!
# Engines with prepared results

An engine that compiles nothing: it asks for some sources and then yields a result that
was prepared beforehand.  It serves to try out the server on programs that no compiler
would yield.

## Main definitions

* `Prepared` — a result with the questions asked before it.
* `preparedEngines` — the engines that yield prepared results one after the other.
-/

namespace LanguageServer

/-- A prepared result: the questions to ask first, and the program or the reason of a breakdown. -/
structure Prepared where
  questions : List (String × String) := []
  outcome : Except String Program

namespace Prepared

/-- The computation that asks some questions and pays no heed to the answers. -/
def askAll (questions : List (String × String)) (next : Compilation) : Compilation :=
  match questions with
  | [] => next
  | (kind, path) :: rest => .ask kind path fun _ => askAll rest next

/-- The compilation that yields a prepared result. -/
def compilation (p : Prepared) : Compilation :=
  askAll p.questions (match p.outcome with
    | .ok program => .done program
    | .error reason => .failed reason)

/-- The result for the compilation of number `n`: once all are used, the last one serves again. -/
def choose (results : List Prepared) (n : Nat) : Option Prepared :=
  results[min n (results.length - 1)]?

end Prepared

/-- Engines that yield prepared results.  If no versions are listed, every version is accepted. -/
def preparedEngines (results : List Prepared) (versions : Option (List String)) :
    EngineFactory := fun n =>
  { accepts := match versions with
      | none => fun _ => .ok ()
      | some vs => acceptListed vs
    compile := fun _ => match Prepared.choose results n with
      | some p => p.compilation
      | none => .failed "no result was prepared" }

end LanguageServer
