import TextReveal.Number.Binary
/-!
The shortest decimal that reads back as a given number: the one on the coarsest decimal grid that
has a point among the reals rounding to the number, and of two such points the nearer.
-/
namespace TextReveal.Number

/-- `digits * 10 ^ exponent` -/
structure Decimal where
  digits : Nat
  exponent : Int
  deriving DecidableEq, Repr

/-- The reals that round to a number, with the number itself between them, all in quarters of the
smallest positive one. The lower half of the interval is shorter where the exponent changes. -/
structure Neighbourhood where
  low : Nat
  centre : Nat
  high : Nat
  endsIncluded : Bool
  deriving DecidableEq, Repr

def Binary.neighbourhood {f : Format} (x : Binary f) : Neighbourhood :=
  let m := f.significand x.magnitude
  let k := f.scale x.magnitude
  let below := if m = f.binade ∧ 0 < k then 4 * m - 1 else 4 * m - 2
  ⟨below * twoTo k, 4 * m * twoTo k, (4 * m + 2) * twoTo k, m % 2 == 0⟩

namespace Neighbourhood

/-- Whether `point`, on an axis where the number's quarters are `unit` long, rounds to it. -/
def contains (n : Neighbourhood) (unit point : Nat) : Bool :=
  if n.endsIncluded then n.low * unit ≤ point && point ≤ n.high * unit
  else n.low * unit < point && point < n.high * unit

/-- The point of the grid with step `step / unit` that stands for the number, if there is one. A
number halfway between two points goes to the upper one if `halfUp`, else to the even one. -/
def onGrid (n : Neighbourhood) (halfUp : Bool) (unit step : Nat) : Option Nat :=
  let d := n.centre * unit / step
  let r := n.centre * unit % step
  let lower := n.contains unit (d * step)
  let upper := n.contains unit ((d + 1) * step)
  if lower && upper then
    if 2 * r < step || (2 * r == step && !halfUp && d % 2 == 0) then some d else some (d + 1)
  else if lower then some d
  else if upper then some (d + 1)
  else none

/-- The grid of the multiples of `10 ^ exponent`. -/
def onPower (f : Format) (n : Neighbourhood) (halfUp : Bool) (exponent : Int) : Option Decimal :=
  let d := if 0 ≤ exponent then n.onGrid halfUp 1 (4 * f.one * tenTo exponent.toNat)
    else n.onGrid halfUp (tenTo (-exponent).toNat) (4 * f.one)
  d.map (⟨·, exponent⟩)

end Neighbourhood

/-- No number of the format is as large as `10 ^ topPower`. -/
def Format.topPower (f : Format) : Nat :=
  (f.fractionBits + f.infinite / f.binade - 1 - f.deepest) / 3 + 1

/-- The powers of ten from the largest to one below the smallest number of the format. -/
def Format.powers (f : Format) : List Int :=
  (List.range (f.topPower + f.deepest + 1)).map fun (i : Nat) => (f.topPower : Int) - i

/-- The shortest decimal of a finite number other than zero. -/
def Binary.shortest {f : Format} (halfUp : Bool) (x : Binary f) : Decimal :=
  let n := x.neighbourhood
  (f.powers.findSome? (n.onPower f halfUp)).getD ⟨0, 0⟩

end TextReveal.Number
