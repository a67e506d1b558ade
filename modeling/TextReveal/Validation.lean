import TextReveal.Registry
import TextReveal.Tag
/-!
Whether the tags of a text are known and properly nested. Nothing is run.
-/
namespace TextReveal

inductive Issue where
  | unknownTag (name : String) (offset : Nat)
  | unclosedTag (name : String) (offset : Nat)
  /-- `expected` is the innermost open region. -/
  | mismatchedClosing (name : String) (expected : Option String) (offset : Nat)
  | closingNonRegion (name : String) (offset : Nat)
  deriving DecidableEq, Repr

def Issue.message : Issue → String
  | unknownTag name offset => "unknown tag [" ++ name ++ "] at " ++ toString offset
  | unclosedTag name offset => "unclosed tag [" ++ name ++ "] opened at " ++ toString offset
  | mismatchedClosing name expected offset =>
    let label := match expected with
      | some name => "[/" ++ name ++ "]"
      | none => "no closing tag"
    "mismatched closing tag [/" ++ name ++ "] at " ++ toString offset ++ " (expected " ++ label
      ++ ")"
  | closingNonRegion name offset =>
    "closing tag [/" ++ name ++ "] at " ++ toString offset ++ " but [" ++ name
      ++ "] is not a region tag"

structure Validation where
  errors : List Issue := []
  warnings : List Issue := []
  deriving DecidableEq, Repr

namespace Validation

def isValid (v : Validation) : Bool := v.errors.isEmpty

/-- One line an issue, errors first. -/
def report (v : Validation) : List String :=
  v.errors.map ("error: " ++ ·.message) ++ v.warnings.map ("warning: " ++ ·.message)

def addError (issue : Issue) (v : Validation) : Validation :=
  { v with errors := issue :: v.errors }

def addWarning (issue : Issue) (v : Validation) : Validation :=
  { v with warnings := issue :: v.warnings }

end Validation

/-- The issues of the tags to come, inside the regions `opened` with their starts, innermost first.
A mismatched closing tag leaves the open regions as they are. -/
def Registry.check (r : Registry) (opened : List (String × Nat)) : List Tag → Validation
  | [] => { errors := opened.reverse.map fun (name, start) => .unclosedTag name start }
  | t :: rest =>
    match r.get? t.name with
    | none => (r.check opened rest).addError (.unknownTag t.name t.start)
    | some h =>
      if !h.isRegion then
        if t.closing then (r.check opened rest).addWarning (.closingNonRegion t.name t.start)
        else r.check opened rest
      else if !t.closing then r.check ((t.name, t.start) :: opened) rest
      else
        match opened with
        | (name, start) :: outer =>
          if name = t.name then r.check outer rest
          else (r.check ((name, start) :: outer) rest).addError
            (.mismatchedClosing t.name (some name) t.start)
        | [] => (r.check [] rest).addError (.mismatchedClosing t.name none t.start)

def Registry.validate (r : Registry) (text : String) : Validation :=
  r.check [] (Tag.lex text)

end TextReveal
