import LanguageServer.Compiler.Program
import LanguageServer.Position

/-!
# Diagnostics

A diagnostic is what the client shows: a finding in line and column coordinates.

## Main definitions

* `Diagnostic`, `Diagnostic.toJson` — a diagnostic and its wire form.
* `Highlight` — a place in a document and how a symbol is used there.
-/

namespace LanguageServer

/-- The number of a severity on the wire. -/
def Severity.number : Severity → Int
  | .error => 1
  | .warning => 2
  | .info => 3
  | .hint => 4

/-- The word for a severity. -/
def Severity.word : Severity → String
  | .error => "error"
  | .warning => "warning"
  | .info => "info"
  | .hint => "hint"

/-- The number of a flag on the wire. -/
def FindingFlag.tag : FindingFlag → Int
  | .unused => 1
  | .deprecated => 2

/-- All flags in the order of their tags. -/
def FindingFlag.all : List FindingFlag := [.unused, .deprecated]

/-- A place that belongs to a diagnostic. -/
structure RelatedLocation where
  location : Location
  message : String
  deriving DecidableEq, Repr

/-- What the client shows at a range of a document. -/
structure Diagnostic where
  range : Range
  message : String
  severity : Option Severity := none
  code : Option Int := none
  /-- Who reports it. -/
  source : Option String := none
  flags : List FindingFlag := []
  related : List RelatedLocation := []
  deriving DecidableEq, Repr

/-- A list that is left out when it is empty. -/
def someUnlessEmpty : List Json → Option Json
  | [] => none
  | items => some (.arr items)

/-- The wire form of a place that belongs to a diagnostic. -/
def RelatedLocation.toJson (r : RelatedLocation) : Json :=
  .obj [("location", r.location.toJson), ("message", .str r.message)]

/-- The wire form of a diagnostic; what is missing or empty is left out, and tags are listed once
each in rising order. -/
def Diagnostic.toJson (d : Diagnostic) : Json :=
  Json.objOfSome
    [("range", some d.range.toJson),
      ("message", some (.str d.message)),
      ("severity", d.severity.map fun s => .int s.number),
      ("code", d.code.map .int),
      ("source", d.source.map .str),
      ("tags", someUnlessEmpty
        ((FindingFlag.all.filter d.flags.contains).map fun f => .int f.tag)),
      ("relatedInformation", someUnlessEmpty (d.related.map RelatedLocation.toJson))]

/-- A place in a document and how a symbol is used there. -/
structure Highlight where
  range : Range
  access : Access
  deriving DecidableEq, Repr

/-- The number of a use on the wire. -/
def Access.number : Access → Int
  | .none => 1
  | .read => 2
  | .write => 3

/-- The wire form of a highlight. -/
def Highlight.toJson (h : Highlight) : Json :=
  .obj [("range", h.range.toJson), ("kind", .int h.access.number)]

end LanguageServer
