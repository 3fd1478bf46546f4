import LanguageServer.Data
import LanguageServer.Json.Parser
import LanguageServer.Text.Cut

/-!
# What a plain scalar means

A scalar without quotes may be null, a truth value, a whole number in one of five
notations, a floating point number, or else the text itself.  Underscores inside
numbers say nothing.

## Main definitions

* `Yaml.scalarData?` — the datum that a plain scalar stands for.
-/

namespace LanguageServer.Yaml

open LanguageServer.Text

/-- The spellings of null. -/
def nullNames : List String := ["", "~", "null", "Null", "NULL"]

/-- The spellings of truth. -/
def trueNames : List String := ["yes", "Yes", "YES", "true", "True", "TRUE", "on", "On", "ON"]

/-- The spellings of falsehood. -/
def falseNames : List String := ["no", "No", "NO", "false", "False", "FALSE", "off", "Off", "OFF"]

/-- The sign of a number and what follows it. -/
def cutSign : List Char → Bool × List Char
  | '-' :: cs => (true, cs)
  | '+' :: cs => (false, cs)
  | cs => (false, cs)

/-- Applies a sign. -/
def signed (negative : Bool) (n : Nat) : Int := if negative then -(n : Int) else n

/-- A text without its underscores. -/
def dropUnderscores (s : List Char) : List Char := s.filter (· != '_')

/-- The value of digits in a base. -/
def baseValue (base : Nat) (ds : List Char) : Nat :=
  ds.foldl (fun n c => n * base + (Json.hexValue? c).getD 0) 0

/-- A decimal digit or an underscore. -/
def isDigitOrUnderscore (c : Char) : Bool := c.isDigit || c == '_'

/-- Whether a part of a number in base sixty has one or two digits and is below sixty. -/
def isSixtieth : List Char → Bool
  | [a] => a.isDigit
  | [a, b] => '0' ≤ a && a ≤ '5' && b.isDigit
  | _ => false

/-- The value of parts in base sixty, the most significant first. -/
def sixtyValue (parts : List Nat) : Nat := parts.foldl (fun n p => n * 60 + p) 0

/-- Whether a text is one or more characters that satisfy `p`. -/
def someAll (p : Char → Bool) (s : List Char) : Bool := !s.isEmpty && s.all p

/-- The whole number that an unsigned text denotes. -/
def wholeNumber? (s : List Char) : Option Nat :=
  match s with
  | ['0'] => some 0
  | '0' :: 'b' :: cs =>
    if someAll (fun c => c == '0' || c == '1' || c == '_') cs then
      some (baseValue 2 (dropUnderscores cs))
    else none
  | '0' :: 'x' :: cs =>
    if someAll (fun c => (Json.hexValue? c).isSome || c == '_') cs then
      some (baseValue 16 (dropUnderscores cs))
    else none
  | '0' :: cs =>
    if someAll (fun c => ('0' ≤ c && c ≤ '7') || c == '_') cs then
      some (baseValue 8 (dropUnderscores cs))
    else none
  | c :: cs =>
    if !c.isDigit then none
    else
      match pieces ':' (c :: cs) with
      | [] => none
      | [whole] =>
        if whole.all isDigitOrUnderscore then some (baseValue 10 (dropUnderscores whole)) else none
      | first :: rest =>
        if first.all isDigitOrUnderscore && rest.all isSixtieth then
          some (sixtyValue ((first :: rest).map fun p => baseValue 10 (dropUnderscores p)))
        else none
  | [] => none

/-- The exponent of a floating point number: nothing, or a letter, a sign and digits. -/
def exponent? : List Char → Option Int
  | [] => some 0
  | c :: sign :: ds =>
    if (c == 'e' || c == 'E') && (sign == '+' || sign == '-') && someAll Char.isDigit ds then
      some (signed (sign == '-') (baseValue 10 ds))
    else none
  | _ => none

/-- The floating point number that an unsigned text denotes; `bare` says that there was no sign. -/
def floatNumber? (negative bare : Bool) (s : List Char) : Option Binary64 :=
  match cutFirst? '.' s with
  | none => none
  | some (whole, rest) =>
    let fraction := rest.takeWhile isDigitOrUnderscore
    let tail := rest.dropWhile isDigitOrUnderscore
    if whole.isEmpty then
      if rest = ['i', 'n', 'f'] ∨ rest = ['I', 'n', 'f'] ∨ rest = ['I', 'N', 'F'] then
        some (.infinite negative)
      else if !bare then none
      else if rest = ['n', 'a', 'n'] ∨ rest = ['N', 'a', 'N'] ∨ rest = ['N', 'A', 'N'] then some .nan
      else if (fraction.head?.any Char.isDigit) then
        (exponent? tail).map fun e =>
          let ds := dropUnderscores fraction
          .ofDecimal negative (baseValue 10 ds) (e - ds.length)
      else none
    else if !whole.head?.any Char.isDigit then none
    else
      match pieces ':' whole with
      | [] => none
      | [whole] =>
        if !whole.all isDigitOrUnderscore then none
        else
          (exponent? tail).map fun e =>
            let ds := dropUnderscores fraction
            .ofDecimal negative (baseValue 10 (dropUnderscores whole ++ ds)) (e - ds.length)
      | first :: parts =>
        if first.all isDigitOrUnderscore && parts.all isSixtieth && tail.isEmpty then
          let n := sixtyValue ((first :: parts).map fun p => baseValue 10 (dropUnderscores p))
          let ds := dropUnderscores fraction
          some (.ofDecimal negative (n * Nat.pow 10 ds.length + baseValue 10 ds) (-ds.length))
        else none

/-- The datum that a plain scalar stands for.  The merge key and the default value have no datum. -/
def scalarData? (s : List Char) : Option Data :=
  let name := String.ofList s
  let (negative, unsigned) := cutSign s
  let bare := unsigned.length = s.length
  if nullNames.contains name then some .null
  else if trueNames.contains name then some (.bool true)
  else if falseNames.contains name then some (.bool false)
  else if name = "=" ∨ name = "<<" then none
  else
    match wholeNumber? unsigned with
    | some n => some (.int (signed negative n))
    | none =>
      match floatNumber? negative bare unsigned with
      | some x => some (.float x)
      | none => some (.text name)

end LanguageServer.Yaml
