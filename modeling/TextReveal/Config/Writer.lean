import TextReveal.Config
import TextReveal.Number.Layout
/-!
Configurations as JSON, one field a line. A speed that is not finite has no number in JSON.
-/
namespace TextReveal.Config
open Number

def writeSpeed (speed : Single) : String :=
  if speed.isFinite then speed.write .stored else "null"

def write (config : Config) : String :=
  "\x7b\n  \"default_speed\": " ++ writeSpeed config.defaultSpeed
    ++ ",\n  \"unknown_tags\": \"" ++ config.unknownTags.name
    ++ "\",\n  \"event_capacity\": " ++ toString config.eventCapacity ++ "\n\x7d"

end TextReveal.Config
