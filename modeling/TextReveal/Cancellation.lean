/-!
A cancellation, seen from its source and from the tokens handed out. Dropping the source cancels, so
that nothing outlives whoever could have cancelled it.
-/
namespace TextReveal

structure Cancellation where
  requested : Bool := false
  sourceHeld : Bool := true
  /-- Which tokens are still held, in the order they were made. -/
  tokens : List Bool := []
  deriving DecidableEq, Repr

namespace Cancellation

def isCancelled (c : Cancellation) : Bool := c.requested || !c.sourceHeld

def isHeld (c : Cancellation) (token : Nat) : Bool := c.tokens.getD token false

def addToken (c : Cancellation) : Nat × Cancellation :=
  (c.tokens.length, { c with tokens := c.tokens ++ [true] })

/-- A token from the source, while there is one. -/
def token (c : Cancellation) : Option Nat × Cancellation :=
  if c.sourceHeld then
    let (id, c) := c.addToken
    (some id, c)
  else (none, c)

def clone (c : Cancellation) (token : Nat) : Option Nat × Cancellation :=
  if c.isHeld token then
    let (id, c) := c.addToken
    (some id, c)
  else (none, c)

def dropToken (c : Cancellation) (token : Nat) : Bool × Cancellation :=
  (c.isHeld token, { c with tokens := c.tokens.set token false })

def cancel (c : Cancellation) : Bool × Cancellation :=
  (c.sourceHeld, { c with requested := c.requested || c.sourceHeld })

def dropSource (c : Cancellation) : Bool × Cancellation :=
  (c.sourceHeld, { c with sourceHeld := false })

/-- What the source says, while it is held. -/
def sourceReport (c : Cancellation) : Option Bool :=
  if c.sourceHeld then some c.requested else none

/-- What every token that is held says. -/
def tokenReports (c : Cancellation) : List (Option Bool) :=
  c.tokens.map fun held => if held then some c.isCancelled else none

/-- Whether somebody waiting on a token goes on at once: the request has come, or never can. -/
def readiness (c : Cancellation) : List (Option Bool) :=
  c.tokens.map fun held =>
    if held then some (if c.requested then true else if c.sourceHeld then false else true) else none

end Cancellation
end TextReveal
