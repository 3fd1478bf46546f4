import LanguageServer.Text.Blank
import LanguageServer.Text.Word

/-!
# Integer numerals

A numeral is a sign that may be missing and decimal digits of any script, with
single underscores allowed between digits, and white space allowed around it.  The
separators of files, groups, records and units are no white space here.

## Main definitions

* `readInteger? s` — the integer that the text `s` denotes.
* `numeral i` — the decimal numeral of `i`.
-/

namespace LanguageServer.Text

/-- Reads digits with single underscores between them; `acc` is the value so far, and
`afterDigit` says whether an underscore or the end may come now. -/
def readDigits? (acc : Nat) (afterDigit : Bool) : List Char → Option Nat
  | [] => if afterDigit then some acc else none
  | c :: cs =>
    if c = '_' then
      if afterDigit then readDigits? acc false cs else none
    else
      match digitValue? c with
      | some d => readDigits? (acc * 10 + d) true cs
      | none => none

/-- White space around a numeral. -/
def isMargin (c : Char) : Bool := isBlank c && !(0x1C ≤ c.toNat && c.toNat ≤ 0x1F)

/-- The integer that a text denotes, if it is a numeral. -/
def readInteger? (s : List Char) : Option Int :=
  match trimWhile isMargin s with
  | '-' :: cs => (readDigits? 0 false cs).map fun n => -(n : Int)
  | '+' :: cs => (readDigits? 0 false cs).map Int.ofNat
  | cs => (readDigits? 0 false cs).map Int.ofNat

/-- Decimal digits of a natural number. -/
def decimalDigits (n : Nat) : List Char := Nat.toDigits 10 n

/-- The decimal numeral of an integer. -/
def decimalText (i : Int) : List Char :=
  match i with
  | .ofNat n => decimalDigits n
  | .negSucc n => '-' :: decimalDigits (n + 1)

/-- The decimal numeral of an integer, as a string. -/
def numeral (i : Int) : String := String.ofList (decimalText i)

end LanguageServer.Text
