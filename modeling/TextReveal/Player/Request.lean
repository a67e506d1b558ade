import TextReveal.Player.Stage
/-!
What the owner of a player does, as trees of single steps. Between two steps of a call the sessions
may run; here nothing else does, and a call that waits for a session runs it to its end.
-/
namespace TextReveal
open Number

inductive Request (α : Type) where
  | done (result : α)
  | readState (next : State → Request α)
  /-- Takes the active session away, to be waited for. -/
  | take (next : Option Ticket → Request α)
  /-- Takes the active session away and cancels it. -/
  | cancel (next : Option Ticket → Request α)
  | await (session : Ticket) (next : Outcome → Request α)
  | render (source : String) (tags : List Tag) (speed : Option Single) (next : String → Request α)
  | launch (text : String) (speed : Option Single) (callback : Bool) (next : Nat → Request α)
  | perform (effect : Effect) (next : Request α)

namespace Request

def performAll {α : Type} (effects : List Effect) (next : Request α) : Request α :=
  effects.foldr .perform next

/-- Cancels the active session, and reports its cancellation if it was typing and had not completed
before it noticed. Goes on with whether it did. -/
def halt {α : Type} (next : Bool → Request α) : Request α :=
  .readState fun before => .cancel fun
    | none => next false
    | some session => .await session fun outcome =>
      if outcome = .cancelled ∧ before = .typing then
        performAll [.setState .cancelled, .publish (.cancelled session.id)] (next true)
      else next false

/-- Reveals a text from the start, and answers with the number of the session. -/
def start (text : String) (speed : Option Single) (callback : Bool) : Request Nat :=
  halt fun _ => .launch text speed callback .done

/-- Ends the session where it is. -/
def stop : Request Bool := halt .done

/-- Jumps to the final text, as if the session had completed. -/
def skip : Request Bool :=
  .readState fun before =>
    if before ≠ .typing then .done false
    else .cancel fun
      | none => .done false
      | some session => .await session fun
        | .completed => .done false
        | .cancelled => .render session.source session.tags session.speed fun text =>
          performAll [.frame text, .setState .completed, .publish (.skipped session.id),
            .publish (.completed session.id), .complete session.id] (.done true)

/-- Shows the final form of a text, without a session. -/
def setInstant (text : String) : Request Unit :=
  halt fun _ => .render text (Tag.lex text) none fun text =>
    performAll [.frame text, .setState .completed] (.done ())

/-- Waits for the active session to end by itself. -/
def join : Request (Option Outcome) :=
  .take fun
    | none => .done none
    | some session => .await session fun outcome => .done (some outcome)

/-- Carries a request out, unless it waits for a session that the clock does not let end. -/
def run? {α σ : Type} [TimeBase σ] : Request α → Stage σ → Option (α × Stage σ)
  | .done result, st => some (result, st)
  | .readState next, st => (next st.player.state).run? st
  | .take next, st =>
    (next st.player.active).run? { st with player := { st.player with active := none } }
  | .cancel next, st =>
    match st.player.active with
    | none => (next none).run? st
    | some session =>
      let st := { st with player := { st.player with active := none } }
      (next (some session)).run? (st.cancelJob session.id)
  | .await session next, st =>
    match st.finish? session.id with
    | none => none
    | some (outcome, st) => (next outcome).run? st
  | .render source tags speed next, st =>
    let (text, st) := st.render source tags (speed.getD st.player.config.defaultSpeed)
    (next text).run? st
  | .launch text speed callback next, st =>
    let (id, st) := st.launch text speed callback
    (next id).run? st
  | .perform effect next, st => next.run? (st.perform effect)

/-- The result of a request that no clock can block, or else nothing done. -/
def carryOut {α σ : Type} [TimeBase σ] (request : Request α) (otherwise : α) (st : Stage σ) :
    α × Stage σ :=
  (request.run? st).getD (otherwise, st)

end Request
end TextReveal
