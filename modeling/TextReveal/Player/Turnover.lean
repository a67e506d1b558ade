import TextReveal.Player.Audience
/-!
How sessions and players are dropped. Whatever is dropped is cancelled, and nobody reports it.
-/
namespace TextReveal.Stage
variable {σ : Type}

/-- Starts to wait for the active session, and gives up unless it is over already. The session is
dropped, which cancels it. Answers whether anybody gave up. -/
def abandon (st : Stage σ) : Bool × Stage σ :=
  match st.player.active with
  | none => (false, st)
  | some session =>
    let st := { st with player := { st.player with active := none } }
    if (st.job? session.id).all fun j => j.status.isOver then (false, st.removeJob session.id)
    else (true, st.cancelJob session.id)

/-- Puts a new player in the place of the old one, whose session is dropped with it. Answers with
the number of a receiver on the new player's channel. -/
def rebuild? [TimeBase σ] (st : Stage σ) (config : Config) : Option (Nat × Stage σ) :=
  config.channel?.map fun channel =>
    let st := st.abandon.2.settle
    { st with
      player := { config }
      stateSeen := 0
      pastChannels := st.pastChannels.push { st.channel with closed := true }
      channel }.subscribe

end TextReveal.Stage
