import LanguageServer.Json.Value
import LanguageServer.Number.Notation
import LanguageServer.Text.Quoted

/-!
# Printing JSON

Texts are printed in ASCII: quotes and backslashes are escaped, the five short
escapes are used, and every other character outside the visible part of ASCII is
written as the code of its UTF-16 units.  Members keep their order.

## Main definitions

* `Separators.compact`, `Separators.spaced` — what stands between items and after keys.
* `Json.print` — the text of a value.
-/

namespace LanguageServer

/-- What stands between items and between a key and its value. -/
structure Separators where
  item : List Char
  member : List Char

/-- No spaces: the form of messages on the wire. -/
def Separators.compact : Separators := ⟨[','], [':']⟩

/-- One space after each separator: the form of values inside traces. -/
def Separators.spaced : Separators := ⟨[',', ' '], [':', ' ']⟩

namespace Json

open LanguageServer.Text

/-- One UTF-16 unit as an escape. -/
def printUnit (u : Nat) : List Char := '\\' :: 'u' :: hexDigits u 4

/-- One character of a string. -/
def printChar (c : Char) : List Char :=
  if c = '"' then ['\\', '"']
  else if c = '\\' then ['\\', '\\']
  else if c = '\n' then ['\\', 'n']
  else if c = '\r' then ['\\', 'r']
  else if c = '\t' then ['\\', 't']
  else if c = '\x08' then ['\\', 'b']
  else if c = '\x0c' then ['\\', 'f']
  else if 0x20 ≤ c.toNat ∧ c.toNat < 0x7f then [c]
  else if c.toNat < 0x10000 then printUnit c.toNat
  else printUnit (0xD800 + (c.toNat - 0x10000) / 0x400)
    ++ printUnit (0xDC00 + (c.toNat - 0x10000) % 0x400)

/-- A string between double quotes. -/
def printString (s : String) : List Char := '"' :: s.toList.flatMap printChar ++ ['"']

mutual

/-- The text of a value. -/
def print (sep : Separators) : Json → List Char
  | .null => ['n', 'u', 'l', 'l']
  | .bool true => ['t', 'r', 'u', 'e']
  | .bool false => ['f', 'a', 'l', 's', 'e']
  | .int i => decimalText i
  | .float x => x.text .json
  | .str s => printString s
  | .arr items => '[' :: printItems sep items ++ [']']
  | .obj members => '{' :: printMembers sep members ++ ['}']

/-- The texts of the items of an array, separated. -/
def printItems (sep : Separators) : List Json → List Char
  | [] => []
  | [v] => print sep v
  | v :: rest => print sep v ++ sep.item ++ printItems sep rest

/-- The texts of the members of an object, separated. -/
def printMembers (sep : Separators) : List (String × Json) → List Char
  | [] => []
  | [(k, v)] => printString k ++ sep.member ++ print sep v
  | (k, v) :: rest =>
    printString k ++ sep.member ++ print sep v ++ sep.item ++ printMembers sep rest

end

end Json

end LanguageServer
