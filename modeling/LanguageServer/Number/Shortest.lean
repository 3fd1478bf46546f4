import LanguageServer.Number.Binary64

/-!
# The shortest decimal of a floating point value

The decimals that read back as a given value fill an interval around it, ends
included if the mantissa is even.  On the grid of `n` significant digits only the
two neighbours of the value matter: the first grid with a neighbour inside the
interval wins, of two neighbours the nearer one, and on an exact tie the even one.

## Main definitions

* `Decimal` — `digits · 10^exponent`.
* `shortest m q` — the shortest decimal that reads back as `m · 2^q`.
-/

namespace LanguageServer

/-- The number `digits · 10^exponent`. -/
structure Decimal where
  digits : Nat
  exponent : Int
  deriving DecidableEq, Repr

namespace Decimal

/-- Compares `a · 10^s` with `b · 2^t` exactly. -/
def compareScaled (a : Nat) (s : Int) (b : Nat) (t : Int) : Ordering :=
  compare (a * Nat.pow 10 s.toNat * Nat.pow 2 (-t).toNat)
    (b * Nat.pow 2 t.toNat * Nat.pow 10 (-s).toNat)

/-- Whether the decimal `d` reads back as `m · 2^q`.  Below the value the gap to the next one is
half as wide if the mantissa is the least normal one. -/
def readsBack (m : Nat) (q : Int) (d : Decimal) : Bool :=
  let low := if m = Nat.pow 2 52 ∧ Binary64.leastExponent < q then 4 * m - 1 else 4 * m - 2
  let high := 4 * m + 2
  let below := compareScaled d.digits d.exponent low (q - 2)
  let above := compareScaled d.digits d.exponent high (q - 2)
  if m % 2 = 0 then below != .lt && above != .gt else below == .gt && above == .lt

/-- The number `k` with `10^(k-1) ≤ m · 2^q < 10^k`, for a positive `m`. -/
def decade (m : Nat) (q : Int) : Int :=
  let num := m * Nat.pow 2 q.toNat
  let den := Nat.pow 2 (-q).toNat
  if den ≤ num then (Nat.toDigits 10 (num / den)).length
  else 1 - (Nat.toDigits 10 (den / num)).length

/-- The neighbour of `m · 2^q` on the grid of `n` significant digits that reads back as it, if
there is one. -/
def onGrid? (m : Nat) (q : Int) (n : Nat) : Option Decimal :=
  let s := decade m q - n
  let f := (m * Nat.pow 2 q.toNat * Nat.pow 10 (-s).toNat) /
    (Nat.pow 2 (-q).toNat * Nat.pow 10 s.toNat)
  let below : Decimal := ⟨f, s⟩
  let above : Decimal := ⟨f + 1, s⟩
  match readsBack m q below, readsBack m q above with
  | true, false => some below
  | false, true => some above
  | false, false => none
  | true, true =>
    match compareScaled (2 * f + 1) s (2 * m) q with
    | .lt => some above
    | .gt => some below
    | .eq => some (if f % 2 = 0 then below else above)

/-- The shortest decimal that reads back as `m · 2^q`; seventeen digits always suffice. -/
def shortest (m : Nat) (q : Int) : Decimal :=
  if m = 0 then ⟨0, 0⟩
  else ((List.range 17).findSome? fun n => onGrid? m q (n + 1)).getD ⟨m, 0⟩

end Decimal

end LanguageServer
