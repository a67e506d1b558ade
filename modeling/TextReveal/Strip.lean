import TextReveal.Registry
import TextReveal.Tag
/-!
Texts without their tags. A tag goes if its name is registered and its handler lets it go; all else
stays as it is, other tags included.
-/
namespace TextReveal

def Registry.strips (r : Registry) (text : String) (t : Tag) : Bool :=
  (r.get? t.name).any fun h => h.strips text t.start

/-- Whether the segment at `start` is a tag that goes. -/
def Registry.dropsSegment (r : Registry) (text : String) (start : Nat) : Segment → Bool
  | .gap _ => false
  | .span inner => (Tag.ofSpan? start inner).any (r.strips text)

def Registry.keep (r : Registry) (text : String) (start : Nat) : List Segment → List Char
  | [] => []
  | s :: rest =>
    (if r.dropsSegment text start s then [] else s.chars) ++ r.keep text (start + s.width) rest

def Registry.strip (r : Registry) (text : String) : String :=
  String.ofList (r.keep text 0 (Segment.cut text.toList))

end TextReveal
