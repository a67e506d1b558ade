import TextReveal.Context
/-!
Handlers: what is bound to a tag name. A handler is a function on contexts; whatever it does to the
world outside is listed in its reply, in order.
-/
namespace TextReveal
open Number

/-- A hub that a handler can fire: the one its registry was made with, or the one that the whole
program shares. -/
inductive HubRef where
  | own
  | common
  deriving DecidableEq, Repr

inductive Manner where
  | opening
  | closing
  | live
  deriving DecidableEq, Repr

/-- The call of a handler that reports its calls, with the context as it was. -/
structure Call where
  handler : String
  manner : Manner
  parameter : String
  context : Context
  deriving DecidableEq, Repr

inductive Signal where
  | action (hub : HubRef) (payload : String)
  | called (call : Call)
  deriving DecidableEq, Repr

inductive Verdict where
  | answered (response : Response)
  | failed (failure : Failure)
  /-- The handler broke down, and a live session with it. -/
  | crashed
  deriving DecidableEq, Repr

structure Reply where
  context : Context
  verdict : Verdict
  signals : List Signal := []
  deriving DecidableEq, Repr

namespace Reply

def answer (context : Context) (response : Response) : Reply :=
  { context, verdict := .answered response }

def fail (context : Context) (failure : Failure) : Reply :=
  { context, verdict := .failed failure }

/-- How an instant pass takes the verdict: only an answer counts. -/
def response (r : Reply) : Response :=
  match r.verdict with
  | .answered response => response
  | _ => .unhandled

end Reply

/-- An opening effect that takes time. -/
inductive LiveEffect where
  | done (reply : Reply)
  | signal (signal : Signal) (next : LiveEffect)
  /-- Asks the clock to wait, and goes on with its answer. -/
  | wait (seconds : Single) (resume : Except String Unit → LiveEffect)

structure Handler where
  name : String
  /-- Whether tags of this name come in pairs. -/
  isRegion : Bool := false
  /-- Whether stripping drops a tag, given the text and the tag's start. -/
  strips : String → Nat → Bool := fun _ _ => true
  opening : Context → String → Reply
  closing : Context → Reply := fun ctx => .answer ctx .invisible
  /-- The opening effect of a live session, for a handler that has one of its own. -/
  live : Option (Context → String → LiveEffect) := none

namespace Handler

def isTimed (h : Handler) : Bool := h.live.isSome

def openLive (h : Handler) (ctx : Context) (parameter : String) : LiveEffect :=
  match h.live with
  | some effect => effect ctx parameter
  | none => .done (h.opening ctx parameter)

def describe (h : Handler) : String :=
  "ProcessorHandle \x7b kind: \"" ++ (if h.isTimed then "Async" else "Sync")
    ++ "\", name: " ++ Text.quote h.name ++ " \x7d"

end Handler
end TextReveal
