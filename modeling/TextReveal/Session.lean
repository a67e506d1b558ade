import TextReveal.Config
import TextReveal.Walk
/-!
A live session as a tree of its dealings with the world: what it does there, and how it goes on
after each answer. Every node is one step that nothing else can come between.
-/
namespace TextReveal
open Number

inductive State where
  | idle
  | typing
  | completed
  | cancelled
  deriving DecidableEq, Repr, Inhabited

inductive Event where
  | started (session : Nat)
  /-- A visible step of the text at this byte. -/
  | revealed (text : String) (offset : Nat)
  | completed (session : Nat)
  /-- The final text was asked for; a completion follows. -/
  | skipped (session : Nat)
  | cancelled (session : Nat)
  deriving DecidableEq, Repr

inductive Outcome where
  | completed
  | cancelled
  deriving DecidableEq, Repr

inductive Effect where
  /-- Shows the whole text so far. -/
  | frame (text : String)
  | publish (event : Event)
  | setState (state : State)
  /-- Runs the completion callback of a session, unless it has run. -/
  | complete (session : Nat)
  | signal (signal : Signal)
  deriving DecidableEq, Repr

/-- How a sleep ends. -/
inductive Wake where
  | elapsed
  | failed (reason : String)
  | cancelled
  deriving DecidableEq, Repr

inductive Session where
  | ended (outcome : Outcome)
  /-- A handler has broken down, and nothing is reported. -/
  | crashed
  | perform (effect : Effect) (next : Session)
  /-- Looks a handler up, among those registered now. -/
  | resolve (name : String) (next : Option Handler → Session)
  /-- Asks whether the session is cancelled. -/
  | check (next : Bool → Session)
  /-- Lets others run. -/
  | yield (next : Session)
  /-- Lets others run if the waits of this turn have used its share up. -/
  | breathe (next : Session)
  /-- Asks the clock to wait. A wait that does not end at once is cut short by a cancellation. -/
  | sleep (seconds : Single) (next : Wake → Session)

namespace Session

def complete (id : Nat) : Session :=
  .perform (.setState .completed) <| .perform (.publish (.completed id)) <|
    .perform (.complete id) <| .ended .completed

/-- The end before the end. Whoever cancels a session reports it; it reports itself only if it ends
for a reason of its own. -/
def abandon (id : Nat) : Session :=
  .check fun cancelled =>
    if cancelled then .ended .cancelled
    else .perform (.setState .cancelled) <| .perform (.publish (.cancelled id)) <|
      .ended .cancelled

/-- Goes on unless the session is cancelled. -/
def guarded (id : Nat) (next : Unit → Session) : Session :=
  .check fun cancelled => if cancelled then abandon id else next ()

/-- What comes before anything that may wait. -/
def poised (id : Nat) (next : Unit → Session) : Session :=
  .breathe (guarded id next)

/-- The wait behind a visible step, for a speed that has one. -/
def delay (id : Nat) (ctx : Context) (next : Unit → Session) : Session :=
  if ctx.speed.isPositive then
    poised id fun _ => .sleep ctx.speed fun
      | .elapsed => guarded id next
      | .failed _ => abandon id
      | .cancelled => abandon id
  else next ()

/-- How many steps of the loop go by between yields. -/
def yieldEvery : Nat := 64

/-- The start of a step of the loop. Without delays, the loop yields from time to time. -/
def turn (id step : Nat) (ctx : Context) (next : Unit → Session) : Session :=
  guarded id fun _ =>
    if step % yieldEvery = 0 ∧ ctx.speed.isNonPositive then .yield (guarded id next) else next ()

def signals (list : List Signal) (next : Session) : Session :=
  list.foldr (fun s next => .perform (.signal s) next) next

/-- Goes on with an answer. A failed clock ends the session, any other failure only the tag. -/
def judge (id : Nat) (reply : Reply) (next : Context → Response → Session) : Session :=
  match reply.verdict with
  | .answered response => next reply.context response
  | .failed (.clock _) => abandon id
  | .failed _ => next reply.context .unhandled
  | .crashed => .crashed

def ofReply (id : Nat) (reply : Reply) (next : Context → Response → Session) : Session :=
  signals reply.signals (judge id reply next)

def ofLive (id : Nat) (next : Context → Response → Session) : LiveEffect → Session
  | .done reply =>
    signals reply.signals <|
      if reply.verdict = .crashed then .crashed else guarded id fun _ => judge id reply next
  | .signal s effect => .perform (.signal s) (ofLive id next effect)
  | .wait seconds resume => .sleep seconds fun
    | .elapsed => ofLive id next (resume (.ok ()))
    | .failed reason => ofLive id next (resume (.error reason))
    | .cancelled => abandon id

/-- A timed opening effect gives way to a cancellation; everything else runs through. -/
def runTag (id : Nat) (h : Handler) (t : Tag) (ctx : Context)
    (next : Context → Response → Session) : Session :=
  if t.closes h then ofReply id (h.closing ctx) next
  else if h.isTimed then poised id fun _ => ofLive id next (h.openLive ctx t.parameter)
  else ofReply id (h.opening ctx t.parameter) next

def frame (ctx : Context) (next : Session) : Session :=
  .perform (.frame ctx.buffer) next

def announce (text : Option String) (offset : Nat) (next : Session) : Session :=
  match text with
  | some text => .perform (.publish (.revealed text offset)) next
  | none => next

/-- Shows what a handler answered. -/
def showResponse (id position : Nat) (r : Response) (ctx : Context)
    (next : Context → Session) : Session :=
  let ctx := ctx.append r.shown
  announce (if r.isVisible then r.replacement else none) position <| frame ctx <|
    if r.isVisible then delay id ctx fun _ => next ctx else next ctx

def showChar (id position : Nat) (c : Char) (ctx : Context) (next : Context → Session) : Session :=
  let ctx := ctx.append c.toString
  announce (some c.toString) position <| frame ctx <| delay id ctx fun _ => next ctx

/-- The loop, after `steps` of its steps, at `position`. Characters before `resume` are dealt with:
the loop may land inside a character, and then goes on behind it. -/
def reveal (id : Nat) (policy : UnknownTags) :
    List Char → Nat → Nat → Nat → List Tag → Context → Session
  | [], _, _, _, _, _ => complete id
  | c :: rest, position, resume, steps, tags, ctx =>
    let next := position + c.utf8Size
    if position < resume then reveal id policy rest next resume steps tags ctx
    else turn id (steps + 1) ctx fun _ =>
      let ctx := { ctx with cursor := position }
      let (here, later) := Tag.reach position tags
      let showHere := fun (_ : Unit) =>
        showChar id position c ctx (reveal id policy rest next next (steps + 1) later)
      match here with
      | none => showHere ()
      | some t => .resolve t.name fun
        | some h => runTag id h t ctx fun ctx response =>
          showResponse id position response ctx
            (reveal id policy rest next (t.landing response) (steps + 1) later)
        | none =>
          match policy with
          | .consume => frame ctx (reveal id policy rest next t.stop (steps + 1) later ctx)
          | .literal => showHere ()

/-- The session numbered `id` over a text with these tags. -/
def start (id : Nat) (policy : UnknownTags) (source : String) (tags : List Tag)
    (speed : Single) : Session :=
  reveal id policy source.toList 0 0 0 tags { source, speed, mode := .live }

end Session
end TextReveal
