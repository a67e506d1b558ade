import TextReveal.Player.Stage
/-!
What those around a player do and see: listeners on its hub, subscribers to its events, and those
who look at its display and its state.
-/
namespace TextReveal

namespace Stage
variable {σ : Type}

/-- The last text shown. -/
def display (st : Stage σ) : String :=
  st.journal.foldl (fun shown entry => match entry with
    | .frame text => text
    | _ => shown) ""

def frameCount (st : Stage σ) : Nat :=
  st.journal.foldl (fun n entry => match entry with
    | .frame _ => n + 1
    | _ => n) 0

def listen (st : Stage σ) : Nat × Stage σ :=
  let (id, listeners) := st.listeners.subscribe ()
  (id, { st with listeners })

/-- Whether the listener was still there; none if there never was one of that number. -/
def unlisten (st : Stage σ) (id : Nat) : Option Bool × Stage σ :=
  if id < st.listeners.next then
    let (was, listeners) := st.listeners.unsubscribe id
    (some was, { st with listeners })
  else (none, st)

/-- Fires the hub from outside, and tells how many listeners heard it. -/
def emit (st : Stage σ) (payload : String) : Nat × Stage σ :=
  (st.listeners.count, st.fire payload)

def subscribe (st : Stage σ) : Nat × Stage σ :=
  (st.receivers.size,
    { st with receivers := st.receivers.push ⟨st.pastChannels.size, st.channel.sent.size⟩ })

def channel? (st : Stage σ) (index : Nat) : Option Channel :=
  (st.pastChannels.push st.channel)[index]?

/-- All that a receiver has not seen, and whether no more can come. -/
def events? (st : Stage σ) (receiver : Nat) : Option (List Received × Bool) × Stage σ :=
  match st.receivers[receiver]? with
  | none => (none, st)
  | some r =>
    match st.channel? r.channel with
    | none => (none, st)
    | some c =>
      (some (c.drain r.seen, c.closed),
        { st with receivers := st.receivers.setIfInBounds receiver { r with seen := c.sent.size } })

/-- Whether the state was set since the last look, and the state. -/
def watch (st : Stage σ) : (Bool × State) × Stage σ :=
  ((st.stateSeen ≠ st.player.stateSets, st.player.state),
    { st with stateSeen := st.player.stateSets })

end Stage
end TextReveal
