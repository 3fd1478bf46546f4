/-!
# Binary floating point values of 64 bits

A finite value is a sign, a mantissa below 2^53 and an exponent of two.  Reading a
decimal rounds its exact quotient to the nearest such value, a tie to the even
mantissa, in natural number arithmetic.

## Main definitions

* `Binary64` — the values: finite, infinite, not a number.
* `Binary64.ofDecimal` — the value nearest to a decimal.
* `Binary64.truncate?` — the integer part, cut off toward zero.
-/

namespace LanguageServer

/-- A floating point value: `± mantissa · 2^exponent`, an infinity, or no number.  The mantissa is
below 2^53, and at least 2^52 unless the exponent is the least one, −1074. -/
inductive Binary64 where
  | finite (negative : Bool) (mantissa : Nat) (exponent : Int)
  | infinite (negative : Bool)
  | nan
  deriving DecidableEq, Repr

namespace Binary64

/-- The least exponent. -/
def leastExponent : Int := -1074

/-- The greatest exponent. -/
def greatestExponent : Int := 971

/-- Zero with a sign. -/
def zero (negative : Bool) : Binary64 := .finite negative 0 leastExponent

/-- The quotient of two numbers rounded to the nearest integer, a half to the even one. -/
def roundQuotient (num den : Nat) : Nat :=
  let q := num / den
  let r := num % den
  if 2 * r < den then q else if den < 2 * r then q + 1 else q + q % 2

/-- `num / den` as a quotient of two numbers after division by `2^e`. -/
def scaled (num den : Nat) (e : Int) : Nat × Nat :=
  if 0 ≤ e then (num, den * Nat.pow 2 e.toNat) else (num * Nat.pow 2 (-e).toNat, den)

/-- The value nearest to `± num / den`, a tie to the even mantissa. -/
def ofRatio (negative : Bool) (num den : Nat) : Binary64 :=
  if num = 0 then zero negative
  else
    let guess := max leastExponent ((num.log2 : Int) - den.log2 - 53)
    let (n, d) := scaled num den guess
    let e := if Nat.pow 2 53 ≤ n / d then guess + 1 else guess
    let (n, d) := scaled num den e
    let m := roundQuotient n d
    let (m, e) := if m = Nat.pow 2 53 then (Nat.pow 2 52, e + 1) else (m, e)
    if greatestExponent < e then .infinite negative else .finite negative m e

/-- The value nearest to `± digits · 10^exponent`.  Decimals far outside the range are decided by
their magnitude alone. -/
def ofDecimal (negative : Bool) (digits : Nat) (exponent : Int) : Binary64 :=
  if digits = 0 then zero negative
  else
    let magnitude := ((Nat.toDigits 10 digits).length : Int) + exponent
    if 400 < magnitude then .infinite negative
    else if magnitude < -400 then zero negative
    else if 0 ≤ exponent then ofRatio negative (digits * Nat.pow 10 exponent.toNat) 1
    else ofRatio negative digits (Nat.pow 10 (-exponent).toNat)

/-- The integer part, cut off toward zero; infinities and no number have none. -/
def truncate? : Binary64 → Option Int
  | .finite negative m e =>
    let n := if 0 ≤ e then m * Nat.pow 2 e.toNat else m / Nat.pow 2 (-e).toNat
    some (if negative then -(n : Int) else n)
  | .infinite _ => none
  | .nan => none

/-- Whether the value is a zero of either sign. -/
def isZero : Binary64 → Bool
  | .finite _ m _ => m == 0
  | .infinite _ => false
  | .nan => false

end Binary64

end LanguageServer
