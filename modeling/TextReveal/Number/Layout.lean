import TextReveal.Number.Shortest
/-!
How numbers are written out. A layout decides where positional digits end and exponents begin, and
what surrounds the digits; the digits themselves are always the fewest that read back.
-/
namespace TextReveal.Number

/-- `positional` is asked about the exponent of the first digit. -/
structure Layout where
  positional : Int → Bool
  pointAlways : Bool
  plusSign : Bool
  halfUp : Bool

/-- As descriptions of values show them. -/
def Layout.described : Layout := ⟨fun e => -4 ≤ e && e < 16, true, false, true⟩

/-- As messages show them: never with an exponent. -/
def Layout.plain : Layout := ⟨fun _ => true, false, false, true⟩

/-- As configurations store them. -/
def Layout.stored : Layout := ⟨fun e => -6 ≤ e && e ≤ 12, true, true, false⟩

/-- As refused configuration values are quoted. -/
def Layout.quoted : Layout := ⟨fun e => -5 ≤ e && e ≤ 15, true, true, false⟩

/-- The digits of a decimal that is not zero, most significant first. -/
def Decimal.chars (d : Decimal) : List Char :=
  Nat.toDigits 10 d.digits

/-- The exponent of the first digit. -/
def Decimal.lead (d : Decimal) : Int :=
  d.exponent + (d.chars.length - 1 : Nat)

def zeros (n : Nat) : List Char := List.replicate n '0'

def Decimal.writePositional (pointAlways : Bool) (d : Decimal) : List Char :=
  let whole := d.lead + 1
  if whole ≤ 0 then
    '0' :: '.' :: zeros (-whole).toNat ++ d.chars
  else if (d.chars.length : Int) ≤ whole then
    d.chars ++ zeros (whole.toNat - d.chars.length) ++ if pointAlways then ['.', '0'] else []
  else
    d.chars.take whole.toNat ++ '.' :: d.chars.drop whole.toNat

def Decimal.writeScientific (plusSign : Bool) (d : Decimal) : List Char :=
  let fraction := match d.chars with
    | c :: [] => [c]
    | c :: rest => c :: '.' :: rest
    | [] => []
  let sign := if d.lead < 0 then ['-'] else if plusSign then ['+'] else []
  fraction ++ 'e' :: sign ++ Nat.toDigits 10 d.lead.natAbs

def Decimal.write (layout : Layout) (d : Decimal) : List Char :=
  if layout.positional d.lead then d.writePositional layout.pointAlways
  else d.writeScientific layout.plusSign

/-- A number, infinity or the absence of a number as text. -/
def Binary.write {f : Format} (layout : Layout) (x : Binary f) : String :=
  let sign := if x.negative then "-" else ""
  if x.isNaN then "NaN"
  else if !x.isFinite then sign ++ "inf"
  else if x.magnitude = 0 then sign ++ if layout.pointAlways then "0.0" else "0"
  else sign ++ String.ofList ((x.shortest layout.halfUp).write layout)

end TextReveal.Number
