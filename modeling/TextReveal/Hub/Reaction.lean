import TextReveal.Hub.Roster
/-!
A hub whose listeners may use the hub while they are called. A listener answers a payload with a
reaction, a tree of its dealings with the hub; an emit runs the reactions of those who were
subscribed when it began.
-/
namespace TextReveal.Hub

/-- What listeners leave behind. -/
inductive Note where
  | heard (listener : Nat) (payload : String)
  | removed (listener : Nat) (was : Bool)
  | echoed (listener : Nat) (reached : Nat)
  deriving DecidableEq, Repr

inductive Reaction where
  | done
  | note (note : Note) (next : Reaction)
  /-- Looks at what has been left behind. -/
  | lookBack (next : List Note → Reaction)
  /-- Adds a listener, which is told its own number. -/
  | subscribe (listener : Nat → String → Reaction) (next : Nat → Reaction)
  | channel (next : Nat → Reaction)
  | unsubscribe (id : Nat) (next : Bool → Reaction)
  /-- Whether a number was ever given out. -/
  | known (id : Nat) (next : Bool → Reaction)
  | clear (next : Reaction)
  | emit (payload : String) (next : Nat → Reaction)

inductive Listener where
  | reacts (react : String → Reaction)
  /-- Puts payloads into the queue of its receiver. -/
  | queues

end Hub

structure Hub where
  roster : Roster Hub.Listener := {}
  /-- The receivers that are still held, by listener, with what they have not read. -/
  queues : List (Nat × List String) := []
  notes : List Hub.Note := []

namespace Hub

def subscribe (h : Hub) (listener : Nat → String → Reaction) : Nat × Hub :=
  let (id, roster) := h.roster.subscribe (.reacts (listener h.roster.next))
  (id, { h with roster })

def channel (h : Hub) : Nat × Hub :=
  let (id, roster) := h.roster.subscribe .queues
  (id, { h with roster, queues := h.queues ++ [(id, [])] })

def unsubscribe (h : Hub) (id : Nat) : Bool × Hub :=
  let (was, roster) := h.roster.unsubscribe id
  (was, { h with roster })

def clear (h : Hub) : Hub := { h with roster := h.roster.clear }

def count (h : Hub) : Nat := h.roster.count

/-- Whether a number was ever given out. -/
def knows (h : Hub) (id : Nat) : Bool := id < h.roster.next

/-- Without a receiver, the payload is lost. -/
def enqueue (h : Hub) (id : Nat) (payload : String) : Hub :=
  { h with queues := h.queues.map fun (i, q) => if i = id then (i, q ++ [payload]) else (i, q) }

def addNote (h : Hub) (note : Note) : Hub := { h with notes := h.notes ++ [note] }

/-- Runs a reaction, given what an emit inside it does. -/
def react (emit : String → Hub → Option (Nat × Hub)) : Reaction → Hub → Option Hub
  | .done, h => some h
  | .note n next, h => react emit next (h.addNote n)
  | .lookBack next, h => react emit (next h.notes) h
  | .subscribe listener next, h =>
    let (id, h) := h.subscribe listener
    react emit (next id) h
  | .channel next, h =>
    let (id, h) := h.channel
    react emit (next id) h
  | .unsubscribe id next, h =>
    let (was, h) := h.unsubscribe id
    react emit (next was) h
  | .known id next, h => react emit (next (h.knows id)) h
  | .clear next, h => react emit next h.clear
  | .emit payload next, h =>
    match emit payload h with
    | some (reached, h) => react emit (next reached) h
    | none => none

def deliver (emit : String → Hub → Option (Nat × Hub)) (payload : String) (h : Hub) :
    Nat × Listener → Option Hub
  | (_, .reacts f) => react emit (f payload) h
  | (id, .queues) => some (h.enqueue id payload)

/-- Calls everybody who is subscribed now, by number, and tells how many they are. Nothing if emits
come to lie more than `depth` deep in each other. -/
def emit? (depth : Nat) (payload : String) (h : Hub) : Option (Nat × Hub) :=
  match depth with
  | 0 => none
  | depth + 1 =>
    (h.roster.entries.foldlM (deliver (emit? depth) payload) h).map fun h' => (h.roster.count, h')

/-- What asking a receiver for a payload can come to. -/
inductive Receipt where
  | payload (payload : String)
  /-- Nothing for now. -/
  | empty
  /-- Nothing any more, as the listener is gone. -/
  | disconnected
  deriving DecidableEq, Repr

/-- Takes the next payload out of a queue, if there is a receiver that holds it. -/
def receive (h : Hub) (id : Nat) : Option Receipt × Hub :=
  match h.queues.lookup id with
  | none => (none, h)
  | some [] => (some (if h.roster.has id then .empty else .disconnected), h)
  | some (payload :: rest) =>
    (some (.payload payload),
      { h with queues := h.queues.map fun (i, q) => if i = id then (i, rest) else (i, q) })

/-- Receives until there is nothing left, or `limit` payloads. -/
def receiveUpTo (limit : Nat) (h : Hub) (id : Nat) : List String × Hub :=
  match limit with
  | 0 => ([], h)
  | limit + 1 =>
    match h.receive id with
    | (some (.payload payload), h) =>
      let (rest, h) := receiveUpTo limit h id
      (payload :: rest, h)
    | (_, h) => ([], h)

/-- What a receiver has not read, and whether its listener is gone. -/
def receive? (h : Hub) (id : Nat) : Option (List String × Bool) × Hub :=
  match h.queues.lookup id with
  | none => (none, h)
  | some q =>
    let (payloads, h) := h.receiveUpTo q.length id
    (some (payloads, (h.receive id).1 = some .disconnected), h)

/-- Whether there was a receiver to drop. -/
def dropReceiver (h : Hub) (id : Nat) : Bool × Hub :=
  ((h.queues.lookup id).isSome, { h with queues := h.queues.filter (·.1 ≠ id) })

def describe (h : Hub) : String :=
  "ActionHub \x7b listeners: " ++ toString h.count ++ " \x7d"

end Hub
end TextReveal
