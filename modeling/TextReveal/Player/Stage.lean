import TextReveal.Channel
import TextReveal.Clock
import TextReveal.Hub.Roster
import TextReveal.Instant
/-!
A player on its stage: the display, the subscribers, the hub and the clock it works with, and the
sessions it has started. Sessions take turns: one runs until it waits, yields or ends, or has had
its share of waits that were over at once.
-/
namespace TextReveal
open Number

/-- How far a session is. -/
inductive Status where
  | ready (session : Session)
  | asleep (seconds : Single) (next : Wake → Session)
  | ended (outcome : Outcome)
  | crashed

def Status.isOver : Status → Bool
  | .ended _ | .crashed => true
  | _ => false

/-- A crashed session counts as cancelled. -/
def Status.outcome? : Status → Option Outcome
  | .ended outcome => some outcome
  | .crashed => some .cancelled
  | _ => none

/-- A session on a stage. -/
structure Job where
  id : Nat
  status : Status
  cancelled : Bool := false

/-- What the owner of a session keeps of it. -/
structure Ticket where
  id : Nat
  source : String
  tags : List Tag
  speed : Single
  deriving DecidableEq, Repr

structure Player where
  config : Config := {}
  state : State := .idle
  /-- How often the state was set, to the same value or another. -/
  stateSets : Nat := 0
  active : Option Ticket := none
  deriving DecidableEq, Repr

/-- What happens on a stage, for all to see. -/
inductive Entry where
  | frame (text : String)
  | published (event : Event)
  | asked (seconds : Single)
  /-- A handler has fired a hub, whether anybody listens or not. -/
  | fired (hub : HubRef) (payload : String)
  | heard (listener : Nat) (payload : String)
  | completed (session : Nat)
  | called (call : Call)
  deriving DecidableEq, Repr

/-- The channel of a player. One event at least is kept. -/
def Config.channel? (config : Config) : Option Channel :=
  Channel.ofCapacity? (max config.eventCapacity 1)

structure Stage (σ : Type) where
  registry : Registry
  clock : σ
  /-- Listeners on the hub that is being listened to. -/
  listeners : Roster Unit := {}
  listenedHub : HubRef := .own
  player : Player := {}
  /-- The channels of players that are gone. -/
  pastChannels : Array Channel := #[]
  channel : Channel
  receivers : Array Receiver := #[⟨0, 0⟩]
  /-- How many settings of the state have been looked at. -/
  stateSeen : Nat := 0
  started : Nat := 0
  jobs : List Job := []
  /-- Sessions whose completion callback has not run. -/
  callbacks : List Nat := []
  journal : Array Entry := #[]

namespace Stage
variable {σ : Type}

/-- A stage for a new player, unless its channel cannot be made. -/
def new? (registry : Registry) (clock : σ) (config : Config) (listenedHub : HubRef) :
    Option (Stage σ) :=
  config.channel?.map fun channel =>
    { registry, clock, listenedHub, player := { config }, channel }

def note (st : Stage σ) (entry : Entry) : Stage σ := { st with journal := st.journal.push entry }

/-- Fires the hub that is being listened to. -/
def fire (st : Stage σ) (payload : String) : Stage σ :=
  st.listeners.ids.foldl (fun st id => st.note (.heard id payload)) st

def signal (st : Stage σ) : Signal → Stage σ
  | .action hub payload =>
    let st := st.note (.fired hub payload)
    if hub = st.listenedHub then st.fire payload else st
  | .called call => st.note (.called call)

def setState (st : Stage σ) (state : State) : Stage σ :=
  { st with player := { st.player with state, stateSets := st.player.stateSets + 1 } }

def publish (st : Stage σ) (event : Event) : Stage σ :=
  { st with channel := st.channel.send event }.note (.published event)

def runCallback (st : Stage σ) (session : Nat) : Stage σ :=
  if session ∈ st.callbacks then
    { st with callbacks := st.callbacks.erase session }.note (.completed session)
  else st

def perform (st : Stage σ) : Effect → Stage σ
  | .frame text => st.note (.frame text)
  | .publish event => st.publish event
  | .setState state => st.setState state
  | .complete session => st.runCallback session
  | .signal s => st.signal s

/-- How a session is to be run: whether it is cancelled, and whether it goes on after yielding. -/
structure Pace where
  cancelled : Bool
  throughYields : Bool
  deriving DecidableEq, Repr

/-- How many waits may end in one turn. -/
def waitsPerTurn : Nat := 128

/-- What is left of a share of waits when one more has ended. -/
def spend [TimeBase σ] (st : Stage σ) (share : Nat) (seconds : Single) : Nat :=
  share - (TimeBase.counts st.clock seconds).toNat

/-- Runs a session until it waits, yields or ends, or would go on with nothing left of its share. -/
def drive [TimeBase σ] (pace : Pace) : Session → Nat → Stage σ → Status × Stage σ
  | .ended outcome, _, st => (.ended outcome, st)
  | .crashed, _, st => (.crashed, st)
  | .perform effect next, share, st => drive pace next share (st.perform effect)
  | .resolve name next, share, st => drive pace (next (st.registry.get? name)) share st
  | .check next, share, st => drive pace (next pace.cancelled) share st
  | .yield next, _, st =>
    if pace.throughYields then drive pace next waitsPerTurn st else (.ready next, st)
  | .breathe next, share, st =>
    if 0 < share then drive pace next share st
    else if pace.throughYields then drive pace next waitsPerTurn st
    else (.ready next, st)
  | .sleep seconds next, share, st =>
    let (answer, clock) := TimeBase.request st.clock seconds
    let st := { st with clock }.note (.asked seconds)
    match answer with
    | .elapsed => drive pace (next .elapsed) (st.spend share seconds) st
    | .failed reason => drive pace (next (.failed reason)) share st
    | .pending =>
      if pace.cancelled then drive pace (next .cancelled) share st else (.asleep seconds next, st)

/-- Takes a session up where it stopped. A sleeper sees a cancellation before it asks the clock. -/
def resume [TimeBase σ] (pace : Pace) (status : Status) (st : Stage σ) : Status × Stage σ :=
  match status with
  | .ready session => drive pace session waitsPerTurn st
  | .asleep seconds next =>
    if pace.cancelled then drive pace (next .cancelled) waitsPerTurn st
    else
      let (answer, clock) := TimeBase.again st.clock seconds
      let st := { st with clock }
      match answer with
      | .elapsed => drive pace (next .elapsed) (st.spend waitsPerTurn seconds) st
      | .failed reason => drive pace (next (.failed reason)) waitsPerTurn st
      | .pending => (.asleep seconds next, st)
  | status => (status, st)

/-- Gives every session a turn. -/
def turns [TimeBase σ] (throughYields : Bool) : List Job → Stage σ → List Job × Stage σ
  | [], st => ([], st)
  | j :: rest, st =>
    let (status, st) := resume ⟨j.cancelled, throughYields⟩ j.status st
    let (rest, st) := turns throughYields rest st
    ({ j with status } :: rest, st)

/-- One turn each. -/
def poll [TimeBase σ] (st : Stage σ) : Stage σ :=
  let (jobs, st) := turns false st.jobs st
  { st with jobs }

/-- Turns until every session has ended or waits. -/
def settle [TimeBase σ] (st : Stage σ) : Stage σ :=
  let (jobs, st) := turns true st.jobs st
  { st with jobs }

def job? (st : Stage σ) (id : Nat) : Option Job := st.jobs.find? (·.id = id)

def cancelJob (st : Stage σ) (id : Nat) : Stage σ :=
  { st with jobs := st.jobs.map fun j => if j.id = id then { j with cancelled := true } else j }

def removeJob (st : Stage σ) (id : Nat) : Stage σ :=
  { st with jobs := st.jobs.filter (·.id ≠ id) }

/-- Waits for the end of a session, if it comes without the clock moving on. A session that is not
there has long been cancelled. -/
def finish? [TimeBase σ] (st : Stage σ) (id : Nat) : Option (Outcome × Stage σ) :=
  match st.job? id with
  | none => some (.cancelled, st)
  | some j =>
    let (status, st) := resume ⟨j.cancelled, true⟩ j.status st
    status.outcome?.map fun outcome => (outcome, st.removeJob id)

/-- Creates a session. It does not run before somebody gives it a turn. -/
def launch (st : Stage σ) (text : String) (speed : Option Single) (callback : Bool) :
    Nat × Stage σ :=
  let id := st.started + 1
  let ticket : Ticket := ⟨id, text, Tag.lex text, speed.getD st.player.config.defaultSpeed⟩
  let session := Session.start id st.player.config.unknownTags text ticket.tags ticket.speed
  let st := ((st.perform (.frame "")).setState .typing).publish (.started id)
  (id, { st with
    started := id
    player := { st.player with active := some ticket }
    jobs := st.jobs ++ [{ id, status := .ready session }]
    callbacks := if callback then st.callbacks ++ [id] else st.callbacks })

/-- The final text of a source with its tags, by the handlers registered now. -/
def render (st : Stage σ) (source : String) (tags : List Tag) (speed : Single) : String × Stage σ :=
  let r := renderInstant st.registry st.player.config.unknownTags source tags speed
  (r.context.buffer, r.signals.foldl signal st)

def finalText (st : Stage σ) (text : String) : String × Stage σ :=
  st.render text (Tag.lex text) st.player.config.defaultSpeed

end Stage
end TextReveal
