import TextReveal.Text.Blank
import TextReveal.Text.Case
/-!
Names of tags and handlers. Two spellings are the same name if they agree up to surrounding white
space and letter case.
-/
namespace TextReveal.Name

def normalize (name : String) : String :=
  String.ofList (Text.lower (Text.trim name.toList))

end TextReveal.Name
