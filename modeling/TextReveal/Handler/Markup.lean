import TextReveal.Handler
import TextReveal.Text.Case
/-!
Style tags, rewritten into the angle brackets that displays read.
-/
namespace TextReveal.Handler

def openingMarkup (name parameter : String) : String :=
  if parameter = "" then "<" ++ name ++ ">" else "<" ++ name ++ "=" ++ parameter ++ ">"

def closingMarkup (name : String) : String :=
  "</" ++ name ++ ">"

/-- The name is lowered, but white space around it stays. -/
def markup (name : String) : Handler :=
  let name := String.ofList (Text.lower name.toList)
  { name
    isRegion := true
    opening := fun ctx parameter => .answer ctx (.replace (openingMarkup name parameter))
    closing := fun ctx => .answer ctx (.replace (closingMarkup name)) }

end TextReveal.Handler
