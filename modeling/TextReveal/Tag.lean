import TextReveal.Name
import TextReveal.Segment
/-!
Tags: the spans of a text that have a name. `[name]` and `[name=parameter]` open, `[/name]` closes.
-/
namespace TextReveal

/-- A tag with the byte positions where its brackets start and end. -/
structure Tag where
  name : String
  /-- What follows the first equals sign, untouched; empty without one, and on closing tags. -/
  parameter : String
  fullText : String
  start : Nat
  stop : Nat
  closing : Bool
  deriving DecidableEq, Repr

namespace Tag

def length (t : Tag) : Nat := t.stop - t.start

def isEmpty (t : Tag) : Bool := t.start == t.stop

/-- The raw name, the parameter and whether the tag closes. -/
def parts (inner : List Char) : List Char × List Char × Bool :=
  match inner with
  | '/' :: name => (name, [], true)
  | _ => (inner.takeWhile (· ≠ '='), (inner.dropWhile (· ≠ '=')).drop 1, false)

/-- The tag that a span at `start` is, unless its name is blank. -/
def ofSpan? (start : Nat) (inner : List Char) : Option Tag :=
  let (rawName, parameter, closing) := parts inner
  let name := Text.trim rawName
  if name = [] then none
  else
    let span := Segment.span inner
    some {
      name := String.ofList (Text.lower name)
      parameter := String.ofList parameter
      fullText := String.ofList span.chars
      start
      stop := start + span.width
      closing }

def ofSegments (start : Nat) : List Segment → List Tag
  | [] => []
  | .gap cs :: rest => ofSegments (start + Text.width cs) rest
  | .span inner :: rest =>
    (ofSpan? start inner).toList ++ ofSegments (start + (Segment.span inner).width) rest

/-- The tags of a text, from left to right. -/
def lex (text : String) : List Tag :=
  ofSegments 0 (Segment.cut text.toList)

end Tag

/-- The names of the tags in a text, each where it is met first. -/
def usedNames (text : String) : List String :=
  ((Tag.lex text).foldl (fun seen t => if t.name ∈ seen then seen else t.name :: seen) []).reverse

end TextReveal
