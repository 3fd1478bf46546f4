import LanguageServer.Number.Shortest
import LanguageServer.Text.Numeral

/-!
# How a floating point value is written

The digits are those of the shortest decimal.  A value is written positionally while
the exponent of its first digit is at least −4 and below 16, with `.0` kept on whole
numbers, and with an exponent of at least two digits otherwise.

## Main definitions

* `NumberFormat` — the choices of a format.
* `Binary64.text` — the text of a value in a format.
-/

namespace LanguageServer

/-- The choices that a format leaves open once the digits are known. -/
structure NumberFormat where
  /-- The least exponent of the first digit that is written positionally. -/
  leastPositional : Int
  /-- The first exponent that is too large to be written positionally. -/
  firstScientific : Int
  /-- The least number of digits of an exponent. -/
  exponentDigits : Nat
  /-- The names of infinity and of no number. -/
  infinity : String
  notANumber : String

/-- Numbers inside messages. -/
def NumberFormat.plain : NumberFormat := ⟨-4, 16, 2, "inf", "nan"⟩

/-- Numbers inside JSON texts: the same digits, other names for what is not finite. -/
def NumberFormat.json : NumberFormat := ⟨-4, 16, 2, "Infinity", "NaN"⟩

namespace Binary64

open LanguageServer.Text (decimalDigits)

/-- Drops the zeros at the end. -/
def dropTrailingZeros (ds : List Char) : List Char :=
  (ds.reverse.dropWhile (· == '0')).reverse

/-- The digits `ds`, of which the first stands for `10^lead`, written with a point. -/
def positional (ds : List Char) (lead : Int) : List Char :=
  if lead < 0 then '0' :: '.' :: List.replicate (-lead - 1).toNat '0' ++ ds
  else
    let whole := lead.toNat + 1
    if ds.length ≤ whole then ds ++ List.replicate (whole - ds.length) '0' ++ ['.', '0']
    else ds.take whole ++ '.' :: ds.drop whole

/-- The digits `ds`, of which the first stands for `10^lead`, written with an exponent. -/
def scientific (format : NumberFormat) (ds : List Char) (lead : Int) : List Char :=
  let mantissa := match ds with
    | [] => []
    | [d] => [d]
    | d :: rest => d :: '.' :: rest
  let digits := decimalDigits lead.natAbs
  let padding := List.replicate (format.exponentDigits - digits.length) '0'
  mantissa ++ 'e' :: (if lead < 0 then '-' else '+') :: padding ++ digits

/-- The text of a value in a format. -/
def text (format : NumberFormat) : Binary64 → List Char
  | .nan => format.notANumber.toList
  | .infinite negative => (if negative then ['-'] else []) ++ format.infinity.toList
  | .finite negative m q =>
    let body :=
      if m = 0 then ['0', '.', '0']
      else
        let d := Decimal.shortest m q
        let digits := decimalDigits d.digits
        let lead := d.exponent + digits.length - 1
        let ds := dropTrailingZeros digits
        if format.leastPositional ≤ lead ∧ lead < format.firstScientific then positional ds lead
        else scientific format ds lead
    (if negative then ['-'] else []) ++ body

end Binary64

end LanguageServer
