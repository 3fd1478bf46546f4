import LanguageServer.Compiler.Node
import LanguageServer.Table

/-!
# Compiled programs

What a compiler makes of a set of sources: a tree for each source that takes part, the
declarations by their handles, and what the compiler has to say about the sources.

## Main definitions

* `Finding` — an error, warning or remark of the compiler.
* `Declaration` — the place where a symbol is bound.
* `CompiledUnit` — a source with its tree.
* `Program` — units, declarations and findings.
-/

namespace LanguageServer

/-- How serious a finding is. -/
inductive Severity where
  | error
  | warning
  | info
  | hint
  deriving DecidableEq, Repr

/-- What else a finding says about the code in its place. -/
inductive FindingFlag where
  | unused
  | deprecated
  deriving DecidableEq, Repr

/-- Another place that belongs to a finding. -/
structure RelatedPlace where
  message : String
  location : SourceLocation
  deriving DecidableEq, Repr

/-- What a compiler has to say; a finding without a location is about the program as a whole. -/
structure Finding where
  severity : Severity
  message : String
  location : Option SourceLocation := none
  code : Option Int := none
  flags : List FindingFlag := []
  related : List RelatedPlace := []
  deriving DecidableEq, Repr

/-- The place where a symbol is bound.  Its handle is unique in its program. -/
structure Declaration where
  handle : Int
  name : String
  location : SourceLocation
  deriving DecidableEq, Repr

/-- A source that takes part in a program, with its tree. -/
structure CompiledUnit where
  source : String
  root : Node

/-- The sources that a unit imports, in the order of its nodes. -/
def CompiledUnit.imports (u : CompiledUnit) : List String :=
  u.root.walk.filterMap (·.label.importedSource)

/-- What a compiler makes of a set of sources. -/
structure Program where
  units : Table String CompiledUnit
  declarations : Table Int Declaration
  findings : List Finding

/-- The program of no source. -/
def Program.empty : Program := ⟨.empty, .empty, []⟩

end LanguageServer
