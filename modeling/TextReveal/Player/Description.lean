import TextReveal.Player.Stage
/-!
Players in words.
-/
namespace TextReveal

def State.describe : State → String
  | .idle => "Idle"
  | .typing => "Typing"
  | .completed => "Completed"
  | .cancelled => "Cancelled"

def Config.describe (c : Config) : String :=
  "TypewriterConfig \x7b default_speed: " ++ c.defaultSpeed.write .described
    ++ ", unknown_tags: " ++ (match c.unknownTags with
      | .consume => "Consume"
      | .literal => "Literal")
    ++ ", event_capacity: " ++ toString c.eventCapacity ++ " \x7d"

def Player.describe (p : Player) : String :=
  "Typewriter \x7b state: " ++ p.state.describe
    ++ ", session: " ++ (match p.active with
      | some session => "Some(" ++ toString session.id ++ ")"
      | none => "None")
    ++ ", config: " ++ p.config.describe ++ " \x7d"

end TextReveal
