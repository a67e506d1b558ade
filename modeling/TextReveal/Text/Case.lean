import TextReveal.Text.CaseTable
/-!
Lower case over the whole of Unicode. Every character is lowered alone, except that the dotted
capital I becomes two characters and that a capital sigma looks at its neighbours: it is written
as a final sigma when it ends a word.
-/
namespace TextReveal.Text

def inRanges (ranges : List (Nat × Nat)) (c : Char) : Bool :=
  ranges.any fun r => r.1 ≤ c.toNat && c.toNat ≤ r.2

def isCased (c : Char) : Bool :=
  inRanges casedRanges c

def isCaseIgnorable (c : Char) : Bool :=
  inRanges caseIgnorableRanges c

/-- The lower-case form of a character that has one of its own. -/
def simpleLower (c : Char) : Char :=
  match caseRows.find? (·.covers c.toNat) with
  | some row => Char.ofNat (row.image + (c.toNat - row.first))
  | none => c

/-- Whether the nearest character that is not ignorable is cased. -/
def meetsCased (s : List Char) : Bool :=
  match s.dropWhile isCaseIgnorable with
  | c :: _ => isCased c
  | [] => false

/-- The lower case of `c` between the text before it, nearest character first, and after it. -/
def lowerBetween (before : List Char) (c : Char) (after : List Char) : List Char :=
  if c = 'Σ' then
    [if meetsCased before && !meetsCased after then 'ς' else 'σ']
  else if c = 'İ' then
    ['i', '\u0307']
  else
    [simpleLower c]

def lowerAfter (before : List Char) : List Char → List Char
  | [] => []
  | c :: rest => lowerBetween before c rest ++ lowerAfter (c :: before) rest

def lower (s : List Char) : List Char :=
  lowerAfter [] s

end TextReveal.Text
