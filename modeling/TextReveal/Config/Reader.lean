import TextReveal.Config
import TextReveal.Json.Numeral
import TextReveal.Json.Skip
/-!
Configurations from JSON: an object with any of the fields, or a list of the first few. A text is
read from left to right, and the first fault met is the one reported.
-/
namespace TextReveal.Config
open Json Number

/-- The fault in finding, where `expected` should stand, what `s` starts with. -/
def misfit (expected : String) (s : List Char) : Fault :=
  match s with
  | 'n' :: rest => word rest ['u', 'l', 'l'] .null
  | 't' :: rest => word rest ['r', 'u', 'e'] (.boolean true)
  | 'f' :: rest => word rest ['a', 'l', 's', 'e'] (.boolean false)
  | '-' :: rest => numeral (readNumeral true rest)
  | '"' :: rest =>
    match readString rest with
    | .error fault => fault
    | .ok (text, _) => .wrongType (.text (String.ofList text)) expected
  | '[' :: _ => .wrongType .list expected
  | '\x7b' :: _ => .wrongType .object expected
  | c :: rest => if c.isDigit then numeral (readNumeral false (c :: rest)) else .expectedValue
  | [] => .expectedValue
where
  word (s letters : List Char) (found : Found) : Fault :=
    match readWord letters s with
    | .error fault => fault
    | .ok _ => .wrongType found expected
  numeral : Except Fault (Numeral × List Char) → Fault
    | .error fault => fault
    | .ok (n, _) => .wrongType n.found expected

def readNumber (expected : String) (s : List Char) : Except Fault (Numeral × List Char) :=
  match dropGaps s with
  | [] => .error .endInValue
  | '-' :: rest => readNumeral true rest
  | s => if s.head?.any Char.isDigit then readNumeral false s else .error (misfit expected s)

def readSpeed (s : List Char) : Except Fault (Single × List Char) :=
  (readNumber "f32" s).map fun (n, rest) => (n.toSingle, rest)

def readCapacity (s : List Char) : Except Fault (Nat × List Char) :=
  (readNumber "usize" s).bind fun
    | (.natural n, rest) => .ok (n, rest)
    | (.negative n, _) => .error (.wrongValue (.integer (-n)) "usize")
    | (.real x, _) => .error (.wrongType (.real x) "usize")

def readColon (s : List Char) : Except Fault (List Char) :=
  match dropGaps s with
  | [] => .error .endInObject
  | ':' :: rest => .ok rest
  | _ => .error .expectedColon

/-- The name of a policy, from behind its opening quote on. -/
def readPolicyName (s : List Char) : Except Fault (UnknownTags × List Char) :=
  (readString s).bind fun (name, rest) =>
    match UnknownTags.ofName? (String.ofList name) with
    | some policy => .ok (policy, rest)
    | none => .error (.unknownVariant (String.ofList name))

def readNull (s : List Char) : Except Fault (List Char) :=
  match dropGaps s with
  | [] => .error .endInValue
  | 'n' :: rest => readWord ['u', 'l', 'l'] rest
  | s => .error (misfit "unit" s)

/-- A policy is its name, or an object that maps its name to null. -/
def readPolicy (s : List Char) : Except Fault (UnknownTags × List Char) :=
  match dropGaps s with
  | [] => .error .endInValue
  | '"' :: rest => readPolicyName rest
  | '\x7b' :: rest =>
    match dropGaps rest with
    | [] => .error .endInObject
    | '"' :: rest =>
      (readPolicyName rest).bind fun (policy, rest) =>
        ((readColon rest).bind readNull).bind fun rest =>
          match dropGaps rest with
          | [] => .error .endInObject
          | '\x7d' :: rest => .ok (policy, rest)
          | _ => .error .expectedValue
    | '\x7d' :: _ => .error .expectedValue
    | _ => .error .keyNotString
  | _ => .error .expectedValue

/-- The fields met so far. -/
structure Draft where
  defaultSpeed : Option Single := none
  unknownTags : Option UnknownTags := none
  eventCapacity : Option Nat := none

def Draft.config (d : Draft) : Config :=
  let base : Config := {}
  ⟨d.defaultSpeed.getD base.defaultSpeed, d.unknownTags.getD base.unknownTags,
    d.eventCapacity.getD base.eventCapacity⟩

/-- A value for a field that is not to be given twice. -/
def once {α : Type} (name : String) (field : Option α) (s : List Char)
    (read : List Char → Except Fault (α × List Char)) : Except Fault (α × List Char) :=
  if field.isSome then .error (.duplicateField name) else (readColon s).bind read

/-- The value of the field named `key`; fields of other names are skipped. -/
def readField (d : Draft) (key : String) (s : List Char) : Except Fault (Draft × List Char) :=
  match key with
  | "default_speed" =>
    (once key d.defaultSpeed s readSpeed).map fun (x, rest) => ({ d with defaultSpeed := x }, rest)
  | "unknown_tags" =>
    (once key d.unknownTags s readPolicy).map fun (x, rest) => ({ d with unknownTags := x }, rest)
  | "event_capacity" =>
    (once key d.eventCapacity s readCapacity).map
      fun (x, rest) => ({ d with eventCapacity := x }, rest)
  | _ => ((readColon s).bind (skipValue [])).map fun rest => (d, rest)

/-- The step to the next key, or to the end of the object. -/
def nextKey (first : Bool) (s : List Char) : Except Fault (Option (List Char) × List Char) :=
  match dropGaps s with
  | [] => .error .endInObject
  | '\x7d' :: rest => .ok (none, rest)
  | c :: rest =>
    if first then
      if c = '"' then (readString rest).map fun (key, rest) => (some key, rest)
      else .error .keyNotString
    else if c = ',' then
      match dropGaps rest with
      | [] => .error .endInValue
      | '"' :: rest => (readString rest).map fun (key, rest) => (some key, rest)
      | '\x7d' :: _ => .error .trailingComma
      | _ => .error .keyNotString
    else .error .expectedObjectEnd

/-- Every field takes a character at least, so `budget`, the length of the text, is enough. -/
def readFields (budget : Nat) (first : Bool) (d : Draft) (s : List Char) :
    Except Fault (Draft × List Char) :=
  match budget, nextKey first s with
  | _, .error fault => .error fault
  | _, .ok (none, rest) => .ok (d, rest)
  | 0, .ok (some _, _) => .error .endInObject
  | budget + 1, .ok (some key, rest) =>
    (readField d (String.ofList key) rest).bind fun (d, rest) => readFields budget false d rest

/-- The step to the next element: whether there is one, and the text from it on. -/
def nextElement (first : Bool) (s : List Char) : Except Fault (Bool × List Char) :=
  match dropGaps s with
  | [] => .error .endInList
  | ']' :: rest => .ok (false, ']' :: rest)
  | c :: rest =>
    if first then .ok (true, c :: rest)
    else if c = ',' then
      match dropGaps rest with
      | [] => .error .endInValue
      | ']' :: _ => .error .trailingComma
      | s => .ok (true, s)
    else .error .expectedListEnd

/-- An element of a list that may end before it. -/
def readElement {α : Type} (first : Bool) (read : List Char → Except Fault (α × List Char))
    (s : List Char) : Except Fault (Option α × List Char) :=
  (nextElement first s).bind fun
    | (true, s) => (read s).map fun (x, rest) => (some x, rest)
    | (false, s) => .ok (none, s)

def endList (s : List Char) : Except Fault (List Char) :=
  match dropGaps s with
  | [] => .error .endInList
  | ']' :: rest => .ok rest
  | ',' :: rest =>
    .error (match dropGaps rest with
      | ']' :: _ => .trailingComma
      | _ => .trailingCharacters)
  | _ => .error .trailingCharacters

def readList (s : List Char) : Except Fault (Draft × List Char) := do
  let (speed, s) ← readElement true readSpeed s
  let (policy, s) ← readElement speed.isNone readPolicy s
  let (capacity, s) ← readElement policy.isNone readCapacity s
  let s ← endList s
  return (⟨speed, policy, capacity⟩, s)

def readDraft (s : List Char) : Except Fault (Draft × List Char) :=
  match s with
  | [] => .error .endInValue
  | '\x7b' :: rest => readFields rest.length true {} rest
  | '[' :: rest => readList rest
  | s => .error (misfit "struct TypewriterConfig" s)

/-- A configuration, with nothing but gaps around it. -/
def read (text : String) : Except Fault Config :=
  (readDraft (dropGaps text.toList)).bind fun (d, rest) =>
    if dropGaps rest = [] then .ok d.config else .error .trailingCharacters

end TextReveal.Config
