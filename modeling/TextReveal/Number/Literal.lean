import TextReveal.Number.Binary
/-!
Numbers as people write them: an optional sign, digits with an optional point, an optional exponent.
-/
namespace TextReveal.Number

def natOfDigits (digits : List Char) : Nat :=
  digits.foldl (fun n c => 10 * n + (c.toNat - '0'.toNat)) 0

/-- Splits off one sign; without one the number is not negative. -/
def takeSign : List Char → Bool × List Char
  | '-' :: rest => (true, rest)
  | '+' :: rest => (false, rest)
  | s => (false, s)

/-- What follows the digits of a number: nothing, or a power of ten. -/
def readPower? : List Char → Option Int
  | [] => some 0
  | c :: s =>
    let (negative, digits) := takeSign s
    if (c = 'e' ∨ c = 'E') ∧ digits ≠ [] ∧ digits.all Char.isDigit then
      some (if negative then -(natOfDigits digits : Int) else natOfDigits digits)
    else none

/-- A number without a sign, as digits and a power of ten. -/
def readMagnitude? (s : List Char) : Option (Nat × Int) :=
  let whole := s.takeWhile Char.isDigit
  let (fraction, power) := match s.dropWhile Char.isDigit with
    | '.' :: rest => (rest.takeWhile Char.isDigit, rest.dropWhile Char.isDigit)
    | rest => ([], rest)
  if whole ++ fraction = [] then none
  else (readPower? power).map fun e => (natOfDigits (whole ++ fraction), e - fraction.length)

def Binary.read? {f : Format} (s : List Char) : Option (Binary f) :=
  let (negative, body) := takeSign s
  (readMagnitude? body).map fun (digits, exponent) => .ofDecimal negative digits exponent

end TextReveal.Number
