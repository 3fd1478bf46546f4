import LanguageServer.Data
import LanguageServer.Text.Capital

/-!
# Trace levels

How much the client wants to hear about the messages that the server receives.

## Main definitions

* `Trace` — off, messages, verbose.
* `Trace.parse` — the level that a value names.
-/

namespace LanguageServer

/-- How much the client wants to hear. -/
inductive Trace where
  | off
  | messages
  | verbose
  deriving DecidableEq, Repr, Inhabited

namespace Trace

/-- The levels in rising order. -/
def all : List Trace := [.off, .messages, .verbose]

/-- The number of a level. -/
def level : Trace → Nat
  | .off => 0
  | .messages => 1
  | .verbose => 2

/-- The name of a level, in capitals. -/
def name : Trace → List Char
  | .off => ['O', 'F', 'F']
  | .messages => ['M', 'E', 'S', 'S', 'A', 'G', 'E', 'S']
  | .verbose => ['V', 'E', 'R', 'B', 'O', 'S', 'E']

/-- The level that a value names: a text whose capital form is the name of a level. -/
def parse? (v : Json) : Option Trace := do
  let s ← v.text?
  all.find? fun t => t.name = Text.capitals s.toList

/-- The wording for a value that names no level. -/
def invalidMessage (v : Json) : String := "Invalid trace value: " ++ v.toData.literalString

/-- The level that a value names, or the wording of its refusal. -/
def parse (v : Json) : Except String Trace :=
  match parse? v with
  | some t => .ok t
  | none => .error (invalidMessage v)

end Trace

end LanguageServer
