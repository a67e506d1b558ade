import TextReveal.Number.Binary
/-!
What a player can be told before it starts.
-/
namespace TextReveal
open Number

/-- What becomes of a tag whose name nobody handles: it is swallowed, or shown as it stands. -/
inductive UnknownTags where
  | consume
  | literal
  deriving DecidableEq, Repr, Inhabited

structure Config where
  /-- Seconds between characters where nothing else is said. The default is a twentieth. -/
  defaultSpeed : Single := ⟨false, 0x3D4CCCCD⟩
  unknownTags : UnknownTags := .consume
  /-- How many events a subscriber may lag behind before it loses some. -/
  eventCapacity : Nat := 64
  deriving DecidableEq, Repr

instance : Inhabited Config := ⟨{}⟩

def UnknownTags.name : UnknownTags → String
  | .consume => "consume"
  | .literal => "literal"

def UnknownTags.ofName? : String → Option UnknownTags
  | "consume" => some .consume
  | "literal" => some .literal
  | _ => none

end TextReveal
