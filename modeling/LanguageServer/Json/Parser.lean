import LanguageServer.Json.Value
import LanguageServer.Text.Numeral
import LanguageServer.Text.Utf8

/-!
# Reading JSON

The reader accepts the standard grammar and, beside it, the names `NaN`, `Infinity`
and `-Infinity`.  White space is the space, the tab and the two line ends, and
nothing else.  A string may not hold a bare control character.  A number with a
point or an exponent is a floating point value, any other a whole number.  A key
that is repeated keeps its first place and its last value.

Recursion is bounded by the length of the text, which no nesting can exceed.

## Main definitions

* `Json.parse?` — the value that a whole text denotes.
* `Json.parseBytes?` — the same for UTF-8 bytes.
-/

namespace LanguageServer.Json

open LanguageServer.Text

/-- The white space of JSON. -/
def isSpace (c : Char) : Bool := c == ' ' || c == '\t' || c == '\n' || c == '\r'

/-- Drops leading white space. -/
def skipSpace (s : List Char) : List Char := s.dropWhile isSpace

/-- The value of a hexadecimal digit of either case. -/
def hexValue? (c : Char) : Option Nat :=
  if '0' ≤ c ∧ c ≤ '9' then some (c.toNat - '0'.toNat)
  else if 'a' ≤ c ∧ c ≤ 'f' then some (c.toNat - 'a'.toNat + 10)
  else if 'A' ≤ c ∧ c ≤ 'F' then some (c.toNat - 'A'.toNat + 10)
  else none

/-- The value of four hexadecimal digits. -/
def hexQuad? (a b c d : Char) : Option Nat := do
  let a ← hexValue? a
  let b ← hexValue? b
  let c ← hexValue? c
  let d ← hexValue? d
  return ((a * 16 + b) * 16 + c) * 16 + d

/-- The character of a one-letter escape. -/
def escape? (c : Char) : Option Char :=
  if c = '"' ∨ c = '\\' ∨ c = '/' then some c
  else if c = 'n' then some '\n'
  else if c = 'r' then some '\r'
  else if c = 't' then some '\t'
  else if c = 'b' then some '\x08'
  else if c = 'f' then some '\x0c'
  else none

/-- The character of a surrogate pair. -/
def pairChar (high low : Nat) : Char :=
  Char.ofNat (0x10000 + (high - 0xD800) * 0x400 + (low - 0xDC00))

/-- The characters read so far, last first, and a high surrogate that waits for its partner. -/
structure Reading where
  chars : List Char
  high : Option Nat

/-- Gives up waiting: a surrogate without a partner is replaced. -/
def Reading.settled (r : Reading) : List Char :=
  match r.high with
  | none => r.chars
  | some _ => replacement :: r.chars

/-- Adds a character. -/
def Reading.push (r : Reading) (c : Char) : Reading := ⟨c :: r.settled, none⟩

/-- Adds a UTF-16 unit. -/
def Reading.pushUnit (r : Reading) (u : Nat) : Reading :=
  if 0xD800 ≤ u ∧ u < 0xDC00 then ⟨r.settled, some u⟩
  else if 0xDC00 ≤ u ∧ u < 0xE000 then
    match r.high with
    | some high => ⟨pairChar high u :: r.chars, none⟩
    | none => r.push replacement
  else r.push (Char.ofNat u)

/-- Reads the rest of a string up to its closing quote. -/
def stringRest? (r : Reading) : List Char → Option (String × List Char)
  | [] => none
  | '"' :: cs => some (String.ofList r.settled.reverse, cs)
  | '\\' :: 'u' :: a :: b :: c :: d :: cs =>
    match hexQuad? a b c d with
    | some u => stringRest? (r.pushUnit u) cs
    | none => none
  | '\\' :: c :: cs =>
    match escape? c with
    | some c' => stringRest? (r.push c') cs
    | none => none
  | c :: cs => if c.toNat < 0x20 then none else stringRest? (r.push c) cs

/-- The digits at the front of a text. -/
def takeDigits (s : List Char) : List Char × List Char :=
  (s.takeWhile Char.isDigit, s.dropWhile Char.isDigit)

/-- The natural number that ASCII digits denote. -/
def digitsValue (ds : List Char) : Nat := ds.foldl (fun n c => n * 10 + (c.toNat - '0'.toNat)) 0

/-- The whole part of a number: a lone zero, or digits that do not begin with one. -/
def wholePart? : List Char → Option (List Char × List Char)
  | '0' :: cs => some (['0'], cs)
  | c :: cs => if c.isDigit then some (takeDigits (c :: cs)) else none
  | [] => none

/-- The fraction of a number, empty if there is none. -/
def fractionPart : List Char → List Char × List Char
  | '.' :: cs =>
    match takeDigits cs with
    | ([], _) => ([], '.' :: cs)
    | found => found
  | cs => ([], cs)

/-- The digits of an exponent after its letter and sign. -/
def exponentDigits? (negative : Bool) (cs : List Char) : Option (Int × List Char) :=
  match takeDigits cs with
  | ([], _) => none
  | (ds, rest) => some (if negative then -(digitsValue ds : Int) else digitsValue ds, rest)

/-- The exponent of a number, if there is one. -/
def exponentPart? : List Char → Option (Int × List Char)
  | c :: cs =>
    if c = 'e' ∨ c = 'E' then
      match cs with
      | '+' :: rest => exponentDigits? false rest
      | '-' :: rest => exponentDigits? true rest
      | rest => exponentDigits? false rest
    else none
  | [] => none

/-- A number after its sign. -/
def unsigned? (negative : Bool) (s : List Char) : Option (Json × List Char) := do
  let (whole, rest) ← wholePart? s
  let (fraction, rest) := fractionPart rest
  match exponentPart? rest with
  | some (e, rest) =>
    return (.float (.ofDecimal negative (digitsValue (whole ++ fraction)) (e - fraction.length)),
      rest)
  | none =>
    if fraction.isEmpty then
      let n : Int := digitsValue whole
      return (.int (if negative then -n else n), rest)
    else
      return (.float (.ofDecimal negative (digitsValue (whole ++ fraction)) (-fraction.length)),
        rest)

/-- A value that is neither a string, an array nor an object. -/
def scalar? : List Char → Option (Json × List Char)
  | 'n' :: 'u' :: 'l' :: 'l' :: cs => some (.null, cs)
  | 't' :: 'r' :: 'u' :: 'e' :: cs => some (.bool true, cs)
  | 'f' :: 'a' :: 'l' :: 's' :: 'e' :: cs => some (.bool false, cs)
  | 'N' :: 'a' :: 'N' :: cs => some (.float .nan, cs)
  | 'I' :: 'n' :: 'f' :: 'i' :: 'n' :: 'i' :: 't' :: 'y' :: cs => some (.float (.infinite false), cs)
  | '-' :: 'I' :: 'n' :: 'f' :: 'i' :: 'n' :: 'i' :: 't' :: 'y' :: cs =>
    some (.float (.infinite true), cs)
  | '-' :: cs => unsigned? true cs
  | cs => unsigned? false cs

mutual

/-- Reads a value at the front of a text, without white space before it. -/
def readValue? : Nat → List Char → Option (Json × List Char)
  | 0, _ => none
  | _ + 1, '"' :: cs => (stringRest? ⟨[], none⟩ cs).map fun r => (.str r.1, r.2)
  | n + 1, '[' :: cs =>
    match skipSpace cs with
    | ']' :: rest => some (.arr [], rest)
    | rest => readItems? n [] rest
  | n + 1, '{' :: cs =>
    match skipSpace cs with
    | '}' :: rest => some (.obj [], rest)
    | rest => readMembers? n [] rest
  | _ + 1, cs => scalar? cs

/-- Reads the items of an array after the ones in `acc`, which stand last first. -/
def readItems? : Nat → List Json → List Char → Option (Json × List Char)
  | 0, _, _ => none
  | n + 1, acc, cs =>
    match readValue? n cs with
    | none => none
    | some (v, rest) =>
      match skipSpace rest with
      | ']' :: rest => some (.arr (v :: acc).reverse, rest)
      | ',' :: rest => readItems? n (v :: acc) (skipSpace rest)
      | _ => none

/-- Reads the members of an object after the ones in `acc`. -/
def readMembers? : Nat → List (String × Json) → List Char → Option (Json × List Char)
  | 0, _, _ => none
  | n + 1, acc, '"' :: cs =>
    match stringRest? ⟨[], none⟩ cs with
    | none => none
    | some (key, rest) =>
      match skipSpace rest with
      | ':' :: rest =>
        match readValue? n (skipSpace rest) with
        | none => none
        | some (v, rest) =>
          match skipSpace rest with
          | '}' :: rest => some (.obj (Table.insertIn key v acc), rest)
          | ',' :: rest => readMembers? n (Table.insertIn key v acc) (skipSpace rest)
          | _ => none
      | _ => none
  | _ + 1, _, _ => none

end

/-- The value that a whole text denotes, white space around it allowed. -/
def parse? (s : List Char) : Option Json :=
  match readValue? (s.length + 1) (skipSpace s) with
  | some (v, rest) => if (skipSpace rest).isEmpty then some v else none
  | none => none

/-- The value that UTF-8 bytes denote. -/
def parseBytes? (bs : List UInt8) : Option Json := do parse? (← decodeUtf8? bs)

end LanguageServer.Json
