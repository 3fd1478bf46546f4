import LanguageServer.Position
import LanguageServer.Text.Units

/-!
# Offsets and positions

A text is addressed in two ways: by the offset of a character, and by a line and a
column in UTF-16 units.  Lines end at line feeds; a carriage return at the end of a
line belongs to the line's end and no column lies behind it.

## Main definitions

* `LineIndex` — a text with the offsets at which its lines start.
* `LineIndex.offsetAt` — the offset of a position, or why there is none.
* `LineIndex.positionAt` — the position of an offset.
* `LineIndex.rangeOffsets` — the offsets of the two ends of a range.
* `PositionError` — why a position or range is refused.
-/

namespace LanguageServer

open LanguageServer.Text

/-- Why a position or a range does not fit a text. -/
inductive PositionError where
  | noSuchLine (line : Int) (count : Nat)
  | negativeCharacter (character : Int)
  | insidePair (character line : Int)
  | pastLineEnd (character line : Int) (units : Nat)
  | reversed (range : Range)
  deriving DecidableEq, Repr

/-- The wording of a refusal. -/
def PositionError.message : PositionError → String
  | .noSuchLine line count =>
    "Line " ++ numeral line ++ " out of range (document has " ++ numeral count ++ " lines)"
  | .negativeCharacter character => "Negative character offset " ++ numeral character
  | .insidePair character line =>
    "Character " ++ numeral character ++ " splits a surrogate pair on line " ++ numeral line
  | .pastLineEnd character line units =>
    "Character " ++ numeral character ++ " out of range on line " ++ numeral line
      ++ " (line has " ++ numeral units ++ " characters)"
  | .reversed range =>
    "Range end " ++ range.stop.label ++ " precedes start " ++ range.start.label

/-- The offsets just behind the line feeds of a text that begins at `offset`. -/
def lineStartsFrom (offset : Nat) : List Char → List Nat
  | [] => []
  | c :: cs =>
    if c = '\n' then (offset + 1) :: lineStartsFrom (offset + 1) cs
    else lineStartsFrom (offset + 1) cs

/-- A text with the offsets at which its lines start. -/
structure LineIndex where
  text : List Char
  starts : List Nat
  starts_eq : starts = 0 :: lineStartsFrom 0 text

namespace LineIndex

/-- The index of a text. -/
def ofText (text : List Char) : LineIndex := ⟨text, 0 :: lineStartsFrom 0 text, rfl⟩

/-- A text has one index only. -/
theorem eq_ofText (index : LineIndex) : index = ofText index.text := by
  obtain ⟨text, starts, rfl⟩ := index
  rfl

/-- The index of a string. -/
def ofString (s : String) : LineIndex := ofText s.toList

/-- The number of lines: one more than the number of line feeds. -/
def lineCount (index : LineIndex) : Nat := index.starts.length

/-- Drops a carriage return at the end. -/
def dropFinalReturn (s : List Char) : List Char :=
  if s.getLast? = some '\r' then s.dropLast else s

/-- The text of a line without its line end. -/
def lineText? (index : LineIndex) (line : Nat) : Option (List Char) := do
  let start ← index.starts[line]?
  let stop := match index.starts[line + 1]? with
    | some next => next - 1
    | none => index.text.length
  return dropFinalReturn ((index.text.drop start).take (stop - start))

/-- The text of a line whose number may count from the end, `-1` being the last line.  A line ends
one character before the next one starts; the last line, when it is counted from the end, ends one
character before the text does. -/
def lineTextAt? (index : LineIndex) (line : Int) : Option (List Char) :=
  let fromEnd := (-line).toNat
  if 0 ≤ line then index.lineText? line.toNat
  else if index.lineCount < fromEnd then none
  else if fromEnd = 1 then
    some (dropFinalReturn (index.text.drop (index.starts.getLastD 0)).dropLast)
  else index.lineText? (index.lineCount - fromEnd)

/-- What the search for a column finds in a line. -/
inductive Column where
  | found (count : Nat)
  | insidePair
  | pastEnd (units : Nat)
  deriving DecidableEq

/-- Looks for the column `target` behind `count` characters of `units` units. -/
def findColumn (target : Nat) (units count : Nat) : List Char → Column
  | [] => if units = target then .found count else .pastEnd units
  | c :: cs =>
    if target < units then .insidePair
    else if units = target then .found count
    else findColumn target (units + width c) (count + 1) cs

/-- The offset of a position. -/
def offsetAt (index : LineIndex) (p : Position) : Except PositionError Nat :=
  if p.line < 0 then .error (.noSuchLine p.line index.lineCount)
  else
    match index.starts[p.line.toNat]?, index.lineText? p.line.toNat with
    | some start, some line =>
      if p.character < 0 then .error (.negativeCharacter p.character)
      else
        match findColumn p.character.toNat 0 0 line with
        | .found count => .ok (start + count)
        | .insidePair => .error (.insidePair p.character p.line)
        | .pastEnd units => .error (.pastLineEnd p.character p.line units)
    | _, _ => .error (.noSuchLine p.line index.lineCount)

/-- The offset nearest to `offset` that lies in the text. -/
def clamp (index : LineIndex) (offset : Int) : Nat := min offset.toNat index.text.length

/-- The line on which an offset lies: the last one that starts at or before it. -/
def lineAt (index : LineIndex) (offset : Nat) : Nat :=
  (index.starts.takeWhile (· ≤ offset)).length - 1

/-- The position of an offset; an offset outside the text is moved to its nearer end. -/
def positionAt (index : LineIndex) (offset : Int) : Position :=
  let offset := index.clamp offset
  let line := index.lineAt offset
  let start := index.starts.getD line 0
  ⟨line, unitCount ((index.text.drop start).take (offset - start))⟩

/-- The offsets of the two ends of a range. -/
def rangeOffsets (index : LineIndex) (range : Range) : Except PositionError (Nat × Nat) := do
  let start ← index.offsetAt range.start
  let stop ← index.offsetAt range.stop
  if stop < start then .error (.reversed range) else .ok (start, stop)

/-- The range between two offsets. -/
def rangeOf (index : LineIndex) (start stop : Int) : Range :=
  ⟨index.positionAt start, index.positionAt stop⟩

end LineIndex

end LanguageServer
