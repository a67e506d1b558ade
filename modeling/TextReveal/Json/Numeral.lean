import TextReveal.Json.Fault
import TextReveal.Number.Literal
/-!
Numbers in JSON texts. A whole number that fits 64 bits is kept exactly. Any other becomes a double:
the leading digits that fit 64 bits, rounded, times or over a rounded power of ten.
-/
namespace TextReveal.Json
open Number

inductive Numeral where
  | natural (n : Nat)
  /-- The number below zero with this absolute value. -/
  | negative (n : Nat)
  | real (x : Double)
  deriving DecidableEq, Repr

def largestWord : Nat := twoTo 64 - 1

/-- Appends digits to a number as long as it stays within 64 bits, and counts those appended. -/
def absorb (n : Nat) : List Char → Nat × Nat
  | [] => (n, 0)
  | c :: rest =>
    let n' := 10 * n + (c.toNat - '0'.toNat)
    if n' ≤ largestWord then
      let (total, count) := absorb n' rest
      (total, count + 1)
    else (n, 0)

def powerOfTen (n : Nat) : Double := .ofNat (tenTo n)

/-- `x` times a power of ten. Powers above the format's are applied in strides of its largest. -/
def shift (x : Double) (exponent : Int) : Except Fault Double :=
  if exponent.natAbs ≤ 308 then
    if 0 ≤ exponent then
      let y := x.scaleUp (powerOfTen exponent.natAbs)
      if y.isFinite then .ok y else .error .numberOutOfRange
    else .ok (x.scaleDown (powerOfTen exponent.natAbs))
  else if x.magnitude = 0 then .ok x
  else if 0 ≤ exponent then .error .numberOutOfRange
  else shift (x.scaleDown (powerOfTen 308)) (exponent + 308)
termination_by exponent.natAbs

def signed (negative : Bool) (x : Double) : Double := { x with negative }

/-- The value of a number whose digits are read, up to and with its power of ten. -/
def readScaled (negative : Bool) (digits : Nat) (exponent : Int) (s : List Char) :
    Except Fault (Double × List Char) :=
  match s with
  | c :: power =>
    if c = 'e' ∨ c = 'E' then
      let (down, digits') := takeSign power
      let spelled := digits'.takeWhile Char.isDigit
      let rest := digits'.dropWhile Char.isDigit
      if digits' = [] then .error .endInValue
      else if spelled = [] then .error .invalidNumber
      else
        let e := natOfDigits spelled
        if twoTo 31 ≤ e then
          if digits = 0 ∨ down then .ok (⟨negative, 0⟩, rest) else .error .numberOutOfRange
        else
          (shift (.ofNat digits) (if down then exponent - e else exponent + e)).map
            fun x => (signed negative x, rest)
    else (shift (.ofNat digits) exponent).map fun x => (signed negative x, s)
  | [] => (shift (.ofNat digits) exponent).map fun x => (signed negative x, s)

/-- A number from the digits after its sign on. -/
def readNumeral (negative : Bool) (s : List Char) : Except Fault (Numeral × List Char) :=
  let whole := s.takeWhile Char.isDigit
  let rest := s.dropWhile Char.isDigit
  let (n, kept) := absorb 0 whole
  let dropped := whole.length - kept
  if s = [] then .error .endInValue
  else if whole = [] ∨ (whole.head? = some '0' ∧ 1 < whole.length) then .error .invalidNumber
  else
    match rest with
    | '.' :: tail =>
      let places := tail.takeWhile Char.isDigit
      let (n, count) := absorb n places
      if places = [] then .error (if tail = [] then .endInValue else .invalidNumber)
      else
        (readScaled negative n ((dropped : Int) - count) (tail.dropWhile Char.isDigit)).map
          fun (x, rest) => (.real x, rest)
    | _ =>
      if dropped = 0 ∧ rest.head? ≠ some 'e' ∧ rest.head? ≠ some 'E' then
        if !negative then .ok (.natural n, rest)
        else if n = 0 ∨ twoTo 63 < n then .ok (.real (signed true (.ofNat n)), rest)
        else .ok (.negative n, rest)
      else (readScaled negative n dropped rest).map fun (x, rest) => (.real x, rest)

def Numeral.found : Numeral → Found
  | .natural n => .integer n
  | .negative n => .integer (-n)
  | .real x => .real x

def Numeral.toSingle : Numeral → Single
  | .natural n => .ofNat n
  | .negative n => .ofRatio true n 1
  | .real x => x.convert

end TextReveal.Json
