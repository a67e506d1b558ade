import TextReveal.Handler
import TextReveal.Number.Literal
import TextReveal.Text.Blank
/-!
Handlers for the pace of a text and for the text shown: `speed`, `speedregion`, `pause`, `clear`,
and the line breaks `br` and `n`.
-/
namespace TextReveal.Handler
open Number

/-- A parameter in seconds: a number, with white space around it, that is not too large for the
format. -/
def seconds? (parameter : String) : Option Single :=
  (Binary.read? (Text.trim parameter.toList)).filter (·.isFinite)

/-- Goes on with the parameter in seconds, or fails and leaves the context as it is. -/
def withSeconds (tag parameter : String) (ctx : Context) (next : Single → Reply) : Reply :=
  match seconds? parameter with
  | some s => next s
  | none => .fail ctx (.badParameter tag parameter)

def setSpeed (ctx : Context) (speed : Single) : Reply :=
  .answer { ctx with speed } .invisible

def speed : Handler where
  name := "speed"
  opening ctx parameter := withSeconds "speed" parameter ctx (setSpeed ctx)

/-- A region is opened even by a bad parameter, so that its closing tag returns from this region and
not from the one around it. -/
def speedRegion : Handler where
  name := "speedregion"
  isRegion := true
  opening ctx parameter :=
    let ctx := { ctx with savedSpeeds := ctx.speed :: ctx.savedSpeeds }
    withSeconds "speedregion" parameter ctx (setSpeed ctx)
  closing ctx :=
    match ctx.savedSpeeds with
    | speed :: savedSpeeds => .answer { ctx with speed, savedSpeeds } .invisible
    | [] => .answer ctx .invisible

/-- The pause of an instant pass takes no time. -/
def untimedPause : Handler where
  name := "pause"
  opening ctx parameter := withSeconds "pause" parameter ctx fun _ => .answer ctx .invisible

def pause : Handler :=
  { untimedPause with
    live := some fun ctx parameter =>
      match seconds? parameter with
      | none => .done (.fail ctx (.badParameter "pause" parameter))
      | some s =>
        if s.isPositive then
          .wait s fun
            | .ok _ => .done (.answer ctx .invisible)
            | .error reason => .done (.fail ctx (.clock reason))
        else .done (.answer ctx .invisible) }

def clear : Handler where
  name := "clear"
  opening ctx _ := .answer { ctx with buffer := "" } .invisible

def lineBreak (name : String) : Handler where
  name := name
  opening ctx _ := .answer ctx (.replace "\n")

end TextReveal.Handler
