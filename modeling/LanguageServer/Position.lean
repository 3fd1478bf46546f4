import LanguageServer.Json.Value
import LanguageServer.Text.Numeral

/-!
# Positions in documents

A position is a line and a column in UTF-16 units.  Positions come from clients
unchecked, so both are integers of any sign and size.

## Main definitions

* `Position`, `Range`, `Location` — a point, an interval, an interval in a document.
-/

namespace LanguageServer

/-- A line and a column in UTF-16 units, both counted from zero. -/
structure Position where
  line : Int
  character : Int
  deriving DecidableEq, Repr, Inhabited

namespace Position

/-- Positions are ordered by line, then by column. -/
def before (p q : Position) : Prop :=
  p.line < q.line ∨ (p.line = q.line ∧ p.character < q.character)

instance (p q : Position) : Decidable (p.before q) :=
  inferInstanceAs (Decidable (_ ∨ _))

/-- The wire form of a position. -/
def toJson (p : Position) : Json :=
  .obj [("line", .int p.line), ("character", .int p.character)]

/-- The short form in messages. -/
def label (p : Position) : String := Text.numeral p.line ++ ":" ++ Text.numeral p.character

end Position

/-- The text between two positions. -/
structure Range where
  start : Position
  stop : Position
  deriving DecidableEq, Repr, Inhabited

/-- The wire form of a range. -/
def Range.toJson (r : Range) : Json :=
  .obj [("start", r.start.toJson), ("end", r.stop.toJson)]

/-- A range in the document with the given URI. -/
structure Location where
  uri : String
  range : Range
  deriving DecidableEq, Repr

/-- The wire form of a location. -/
def Location.toJson (l : Location) : Json :=
  .obj [("uri", .str l.uri), ("range", l.range.toJson)]

end LanguageServer
