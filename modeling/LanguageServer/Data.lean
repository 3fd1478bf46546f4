import LanguageServer.Json.Value
import LanguageServer.Number.Notation
import LanguageServer.Text.Quoted

/-!
# Structured data and how messages show it

Settings come from the client as JSON and from a file as YAML.  Both are read as one
kind of data: JSON is the part of it whose mappings have text keys.  A message that
rejects a value shows it as a literal.

## Main definitions

* `Data` — null, truth values, numbers, texts, lists and mappings.
* `Json.toData` — JSON as data.
* `Data.literal` — a value as a message shows it.
* `Data.typeName` — the name of a value's type in a message.
-/

namespace LanguageServer

/-- Structured data; the keys of a mapping are data too and stand in insertion order. -/
inductive Data where
  | null
  | bool (b : Bool)
  | int (i : Int)
  | float (x : Binary64)
  | text (s : String)
  | list (items : List Data)
  | map (entries : List (Data × Data))
  deriving Inhabited

mutual

/-- JSON as data. -/
def Json.toData : Json → Data
  | .null => .null
  | .bool b => .bool b
  | .int i => .int i
  | .float x => .float x
  | .str s => .text s
  | .arr items => .list (Json.itemsToData items)
  | .obj members => .map (Json.membersToData members)

/-- The items of an array as data. -/
def Json.itemsToData : List Json → List Data
  | [] => []
  | v :: rest => v.toData :: Json.itemsToData rest

/-- The members of an object as entries of a mapping. -/
def Json.membersToData : List (String × Json) → List (Data × Data)
  | [] => []
  | (k, v) :: rest => (.text k, v.toData) :: Json.membersToData rest

end

namespace Data

open LanguageServer.Text

/-- The entry of a mapping under a text key. -/
def valueAt? (key : String) : Data → Option Data
  | .map entries => (entries.find? fun e => match e.1 with
      | .text k => k == key
      | _ => false).map (·.2)
  | _ => none

/-- Whether the value is null. -/
def isNull : Data → Bool
  | .null => true
  | _ => false

/-- Whether the value is a mapping. -/
def isMap : Data → Bool
  | .map _ => true
  | _ => false

/-- The text of a text value. -/
def text? : Data → Option String
  | .text s => some s
  | _ => none

/-- The name of a value's type. -/
def typeName : Data → String
  | .null => "NoneType"
  | .bool _ => "bool"
  | .int _ => "int"
  | .float _ => "float"
  | .text _ => "str"
  | .list _ => "list"
  | .map _ => "dict"

mutual

/-- A value as a message shows it: texts are quoted, lists stand in brackets and mappings in
braces. -/
def literal : Data → List Char
  | .null => ['N', 'o', 'n', 'e']
  | .bool true => ['T', 'r', 'u', 'e']
  | .bool false => ['F', 'a', 'l', 's', 'e']
  | .int i => decimalText i
  | .float x => x.text .plain
  | .text s => quoted s.toList
  | .list items => '[' :: literalItems items ++ [']']
  | .map entries => '{' :: literalEntries entries ++ ['}']

/-- The literals of the items of a list, separated. -/
def literalItems : List Data → List Char
  | [] => []
  | [v] => literal v
  | v :: rest => literal v ++ ',' :: ' ' :: literalItems rest

/-- The literals of the entries of a mapping, separated. -/
def literalEntries : List (Data × Data) → List Char
  | [] => []
  | [(k, v)] => literal k ++ ':' :: ' ' :: literal v
  | (k, v) :: rest => literal k ++ ':' :: ' ' :: literal v ++ ',' :: ' ' :: literalEntries rest

end

/-- The literal as a string. -/
def literalString (v : Data) : String := String.ofList v.literal

/-- A value where a text is expected: a text is taken as it is, any other value as its literal. -/
def asText : Data → String
  | .text s => s
  | v => v.literalString

end Data

end LanguageServer
