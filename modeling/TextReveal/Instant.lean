import TextReveal.Config
import TextReveal.Walk
/-!
The final text in one pass: no delays, no events, and every handler in its untimed form.
-/
namespace TextReveal
open Number

/-- A finished pass, with the signals of the handlers in order. -/
structure Rendering where
  context : Context
  signals : List Signal := []
  deriving DecidableEq, Repr

namespace Instant

def respond (h : Handler) (t : Tag) (ctx : Context) : Reply :=
  if t.closes h then h.closing ctx else h.opening ctx t.parameter

/-- Walks from `position` on. Characters before `resume` are dealt with: a pass may land inside a
character, and then goes on behind it. -/
def walk (registry : Registry) (policy : UnknownTags) :
    List Char → Nat → Nat → List Tag → Context → Rendering
  | [], _, _, _, ctx => ⟨ctx, []⟩
  | c :: rest, position, resume, tags, ctx =>
    let next := position + c.utf8Size
    if position < resume then walk registry policy rest next resume tags ctx
    else
      let ctx := { ctx with cursor := position }
      let (here, later) := Tag.reach position tags
      let showHere := fun (_ : Unit) =>
        walk registry policy rest next next later (ctx.append c.toString)
      match here with
      | none => showHere ()
      | some t =>
        match registry.get? t.name, policy with
        | some h, _ =>
          let reply := respond h t ctx
          let tail := walk registry policy rest next (t.landing reply.response) later
            (reply.context.append reply.response.shown)
          { tail with signals := reply.signals ++ tail.signals }
        | none, .consume => walk registry policy rest next t.stop later ctx
        | none, .literal => showHere ()

end Instant

/-- The final display of a text with these tags. -/
def renderInstant (registry : Registry) (policy : UnknownTags) (source : String) (tags : List Tag)
    (speed : Single) : Rendering :=
  Instant.walk registry policy source.toList 0 0 tags { source, speed, mode := .instant }

end TextReveal
