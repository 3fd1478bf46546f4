import LanguageServer.Data
import LanguageServer.Document.Store
import LanguageServer.Session.RequestError

/-!
# Parameters of messages

What the handlers read from the parameters that a client sends.  Where a text is
expected any value is taken, as a message would show it; where a whole number is
expected, also truth values, numerals, and floating point numbers, which are rounded
toward zero.

The parameters of a change are read more strictly, and what is wrong with them is named.

## Main definitions

* `Params.position?`, `Params.range?` — positions and ranges.
* `Params.documentUri?`, `Params.documentPosition?`, `Params.opened?` — parameters about a
  document.
* `ContentChange`, `Params.contentChanges` — the changes of a document.
-/

namespace LanguageServer

/-- A change of a document as the client sends it.  A message without changes carries a new version
only. -/
inductive ContentChange where
  | full (text : String)
  | part (range : Range) (text : String)
  | versionOnly
  deriving DecidableEq, Repr

/-- The edit of the text that a change asks for, if it asks for one. -/
def ContentChange.edit? : ContentChange → Option Edit
  | .full text => some (.replace text)
  | .part range text => some (.splice range text)
  | .versionOnly => none

namespace Params

/-! ## Lenient reading -/

/-- A text; any value is one. -/
def text (v : Json) : String := v.toData.asText

/-- A whole number. -/
def whole? : Json → Option Int
  | .int i => some i
  | .bool b => some (if b then 1 else 0)
  | .float x => x.truncate?
  | .str s => Text.readInteger? s.toList
  | _ => none

/-- A whole number from `low` to `high`. -/
def bounded? (low high : Int) (v : Json) : Option Int :=
  (whole? v).filter fun i => low ≤ i && i ≤ high

/-- The largest coordinate. -/
def maxCoordinate : Int := Int.pow 2 31 - 1

/-- The versions that the protocol can express. -/
def isVersion (i : Int) : Bool := -Int.pow 2 31 ≤ i && i ≤ Int.pow 2 31 - 1

/-- A position. -/
def position? (v : Json) : Option Position := do
  let line ← bounded? 0 maxCoordinate (← v.field? "line")
  let character ← bounded? 0 maxCoordinate (← v.field? "character")
  return ⟨line, character⟩

/-- A range. -/
def range? (v : Json) : Option Range := do
  let start ← position? (← v.field? "start")
  let stop ← position? (← v.field? "end")
  return ⟨start, stop⟩

/-- The URI of the document that parameters are about. -/
def documentUri? (params : Json) : Option String := do
  return text (← (← params.field? "textDocument").field? "uri")

/-- The document and the position that parameters are about. -/
def documentPosition? (params : Json) : Option (String × Position) := do
  return (← documentUri? params, ← position? (← params.field? "position"))

/-- A name of a language: any value but lists and objects. -/
def language? : Json → Option Json
  | .arr _ => none
  | .obj _ => none
  | v => some v

/-- A document that the client opens. -/
structure Opened where
  uri : String
  language : Json
  version : Int
  content : String

/-- The document that parameters open. -/
def opened? (params : Json) : Option Opened := do
  let d ← params.field? "textDocument"
  let language ← language? (← d.field? "languageId")
  let version ← (whole? (← d.field? "version")).filter isVersion
  return { uri := text (← d.field? "uri"), language, version, content := text (← d.field? "text") }

/-! ## Changes -/

/-- The refusal of parameters. -/
def invalid (message : String) : RequestError := .of .invalidParams message

/-- A member that a change must have. -/
def changeMember (key : String) : Json → Except RequestError Json
  | .obj members =>
    match Table.findIn key members with
    | some v => .ok v
    | none => .error (invalid ("Invalid didChange params: " ++ Text.quotedString key))
  | _ => .error (invalid "Invalid didChange params")

/-- The new version of a changed document, if there is one.  It has to be written as a whole
number. -/
def changeVersion : Json → Except RequestError (Option Int)
  | .null => .ok none
  | .int i => .ok (some i)
  | _ => .error (invalid "Document version must be an integer.")

/-- One change of a document. -/
def contentChange (v : Json) : Except RequestError ContentChange :=
  match v.field? "text" with
  | some (.str text) =>
    match v.fieldOrNull "range" with
    | .null => .ok (.full text)
    | r =>
      match range? r with
      | some range => .ok (.part range text)
      | none => .error (invalid "Invalid Range")
  | _ => .error (invalid "Content change requires a text field.")

/-- The changes of a document. -/
def contentChanges : Json → Except RequestError (List ContentChange)
  | .arr [] => .ok [.versionOnly]
  | .arr items => items.mapM contentChange
  | _ => .error (invalid "contentChanges must be an array.")

/-- What the parameters of a change say: the URI of the document as it was sent, its version, and
the changes. -/
def changed (params : Json) : Except RequestError (Json × Option Int × List ContentChange) := do
  let d ← changeMember "textDocument" params
  let uri ← changeMember "uri" d
  let changes ← changeMember "contentChanges" params
  let version ← changeVersion (d.fieldOrNull "version")
  return (uri, version, ← contentChanges changes)

end Params

end LanguageServer
