import TextReveal.Handler
/-!
`[action=payload]` fires a hub with the parameter as it stands.
-/
namespace TextReveal.Handler

/-- Quiet in an instant pass, so that jumping to the end repeats nothing. -/
def action (hub : HubRef) : Handler where
  name := "action"
  opening ctx parameter :=
    { context := ctx
      verdict := .answered .invisible
      signals := if ctx.mode = .live then [.action hub parameter] else [] }

end TextReveal.Handler
