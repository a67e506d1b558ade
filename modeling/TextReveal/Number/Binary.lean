import TextReveal.Number.Power
/-!
Binary floating-point numbers, kept as a sign and a magnitude. The magnitude is the number that the
exponent and fraction bits spell, so that the order of magnitudes is the order of absolute values,
infinity comes after the largest finite one, and whatever lies above infinity is not a number.
-/
namespace TextReveal.Number

/-- `2 ^ fractionBits` magnitudes share an exponent, the smallest positive number is
`1 / 2 ^ deepest`, and `infinite` is the magnitude of infinity. -/
structure Format where
  fractionBits : Nat
  deepest : Nat
  infinite : Nat
  deriving DecidableEq, Repr

def Format.single : Format := ⟨23, 149, 0x7F800000⟩

def Format.double : Format := ⟨52, 1074, 0x7FF0000000000000⟩

/-- The quotient to the nearest whole number, a half to the even neighbour. -/
def roundDiv (num den : Nat) : Nat :=
  let q := num / den
  let r := num % den
  if den < 2 * r || (2 * r == den && q % 2 == 1) then q + 1 else q

/-- How many magnitudes share an exponent. -/
def Format.binade (f : Format) : Nat := twoTo f.fractionBits

/-- How many times the smallest positive number goes into one. -/
def Format.one (f : Format) : Nat := twoTo f.deepest

/-- A finite magnitude stands for `significand * 2 ^ scale / 2 ^ deepest`. -/
def Format.scale (f : Format) (magnitude : Nat) : Nat :=
  magnitude / f.binade - 1

def Format.significand (f : Format) (magnitude : Nat) : Nat :=
  magnitude - f.scale magnitude * f.binade

/-- The magnitude nearest to `num / den`. The scale is the least at which the significand keeps to
its bits; a significand rounded up to one bit more runs over into the next exponent by itself. -/
def Format.round (f : Format) (num den : Nat) : Nat :=
  let scaled := num * f.one
  let scale := (scaled / den).log2 - f.fractionBits
  min (scale * f.binade + roundDiv scaled (den * twoTo scale)) f.infinite

structure Binary (f : Format) where
  negative : Bool
  magnitude : Nat
  deriving DecidableEq, Repr

abbrev Single := Binary .single

abbrev Double := Binary .double

namespace Binary
variable {f : Format}

def zero : Binary f := ⟨false, 0⟩

def nan : Binary f := ⟨false, f.infinite + 1⟩

def infinity (negative : Bool) : Binary f := ⟨negative, f.infinite⟩

instance : Inhabited (Binary f) := ⟨zero⟩

def isNaN (x : Binary f) : Bool := f.infinite < x.magnitude

def isFinite (x : Binary f) : Bool := x.magnitude < f.infinite

def isPositive (x : Binary f) : Bool :=
  !x.negative && 0 < x.magnitude && !x.isNaN

/-- Not above zero, which a value that is not a number is neither. -/
def isNonPositive (x : Binary f) : Bool :=
  !x.isNaN && (x.negative || x.magnitude == 0)

/-- The absolute value of a finite number is `numerator` times the smallest positive one. -/
def numerator (x : Binary f) : Nat :=
  f.significand x.magnitude * twoTo (f.scale x.magnitude)

def ofRatio (negative : Bool) (num den : Nat) : Binary f :=
  ⟨negative, f.round num den⟩

def ofNat (n : Nat) : Binary f :=
  ofRatio false n 1

/-- The product or quotient of finite absolute values, under the sign of the first. -/
def scaleUp (x : Binary f) (factor : Binary f) : Binary f :=
  ofRatio x.negative (x.numerator * factor.numerator) (f.one * f.one)

def scaleDown (x : Binary f) (divisor : Binary f) : Binary f :=
  ofRatio x.negative x.numerator divisor.numerator

/-- The nearest number of another format. -/
def convert {g : Format} (x : Binary f) : Binary g :=
  if x.isFinite then ofRatio x.negative x.numerator f.one
  else if x.isNaN then nan
  else infinity x.negative

/-- The number nearest to `digits * 10 ^ exponent`. Powers far outside the range of the format are
not computed: they could not change the result. -/
def ofDecimal (negative : Bool) (digits : Nat) (exponent : Int) : Binary f :=
  let lead := exponent + (digits.log2 / 3 : Nat) + 1
  if digits = 0 ∨ lead < -(f.deepest : Int) then ⟨negative, 0⟩
  else if (f.deepest : Int) < exponent then infinity negative
  else if 0 ≤ exponent then ofRatio negative (digits * tenTo exponent.toNat) 1
  else ofRatio negative digits (tenTo (-exponent).toNat)

end Binary

/-- The 32 bits of a number, the sign first. -/
def Single.bits (x : Single) : Nat :=
  (if x.negative then twoTo 31 else 0) + x.magnitude

end TextReveal.Number
