import TextReveal.Number.Power
import TextReveal.Session
/-!
The channel that events are published on. It keeps the last few; a receiver that falls further
behind is told how many it lost.
-/
namespace TextReveal

/-- The least power of two that is not below `n`, and at least one. -/
def ceilPowerOfTwo (n : Nat) : Nat :=
  if n ≤ 1 then 1 else Number.twoTo ((n - 1).log2 + 1)

structure Channel where
  capacity : Nat
  /-- Everything ever sent. -/
  sent : Array Event := #[]
  closed : Bool := false
  deriving DecidableEq, Repr

inductive Received where
  | event (event : Event)
  | lagged (lost : Nat)
  deriving DecidableEq, Repr

namespace Channel

def largestCapacity : Nat := Number.twoTo 63 - 1

/-- A channel that keeps `n` events or a few more. Some event has to be kept, and they have to be
countable in a machine word. -/
def ofCapacity? (n : Nat) : Option Channel :=
  if n = 0 ∨ largestCapacity < n then none else some { capacity := ceilPowerOfTwo n }

def send (c : Channel) (event : Event) : Channel := { c with sent := c.sent.push event }

/-- How many events are no longer kept. -/
def lost (c : Channel) : Nat := c.sent.size - c.capacity

/-- What a receiver that has seen `seen` events finds. -/
def drain (c : Channel) (seen : Nat) : List Received :=
  let missed := c.lost - seen
  (if missed = 0 then [] else [.lagged missed])
    ++ (c.sent.toList.drop (seen + missed)).map .event

end Channel

/-- A receiver on one of several channels. -/
structure Receiver where
  channel : Nat
  seen : Nat
  deriving DecidableEq, Repr

end TextReveal
