import TextReveal.Number.Layout
import TextReveal.Text.Quoted
/-!
The state that one pass over a text hands from handler to handler, and what a handler answers.
-/
namespace TextReveal
open Number

inductive Mode where
  /-- Character by character, in time. -/
  | live
  /-- All at once. Handlers with effects elsewhere keep quiet. -/
  | instant
  deriving DecidableEq, Repr

structure Context where
  source : String
  cursor : Nat := 0
  /-- Seconds between characters. -/
  speed : Single
  /-- Speeds to return to, the innermost region's first. -/
  savedSpeeds : List Single := []
  /-- Counters that handlers keep for themselves. -/
  extensions : List (String × Nat) := []
  /-- The text shown so far. -/
  buffer : String := ""
  mode : Mode
  deriving DecidableEq, Repr

namespace Context

def extension? (ctx : Context) (key : String) : Option Nat :=
  ctx.extensions.lookup key

def setExtension (ctx : Context) (key : String) (value : Nat) : Context :=
  { ctx with extensions := (key, value) :: ctx.extensions.filter (·.1 ≠ key) }

def append (ctx : Context) (text : String) : Context :=
  { ctx with buffer := ctx.buffer ++ text }

end Context

def Mode.describe : Mode → String
  | .live => "Live"
  | .instant => "Instant"

def Context.describe (ctx : Context) : String :=
  let speeds := ctx.savedSpeeds.reverse.map (·.write .described)
  "ProcessContext \x7b cursor: " ++ toString ctx.cursor
    ++ ", speed: " ++ ctx.speed.write .described
    ++ ", speed_stack: [" ++ String.intercalate ", " speeds
    ++ "], buffer: " ++ Text.quote ctx.buffer
    ++ ", mode: " ++ ctx.mode.describe ++ " \x7d"

/-- What a handler did with a tag. -/
structure Response where
  handled : Bool := true
  /-- How many bytes from the tag's start on are dealt with. The tag itself always is. -/
  consumed : Nat := 0
  /-- Not a visible step: neither a delay nor an event follows. -/
  suppressed : Bool := false
  /-- What is shown in place of the tag. -/
  replacement : Option String := none
  deriving DecidableEq, Repr

namespace Response

def invisible : Response := { suppressed := true }

def replace (text : String) : Response := { invisible with replacement := some text }

def unhandled : Response := { handled := false, suppressed := true }

/-- What the response adds to the text shown. -/
def shown (r : Response) : String :=
  if r.handled then r.replacement.getD "" else ""

def isVisible (r : Response) : Bool :=
  r.handled && !r.suppressed

end Response

inductive Failure where
  | badParameter (tag value : String)
  | clock (reason : String)
  | other (message : String)
  deriving DecidableEq, Repr

def Failure.message : Failure → String
  | .badParameter tag value => "invalid parameter for [" ++ tag ++ "]: " ++ Text.quote value
  | .clock reason => "clock failure: " ++ reason
  | .other message => message

end TextReveal
