/-!
Subscriptions. Every subscriber gets a number of its own, larger than all before it, and the roster
lists them by number.
-/
namespace TextReveal

structure Roster (α : Type) where
  next : Nat := 0
  entries : List (Nat × α) := []
  deriving Repr

namespace Roster
variable {α : Type}

def subscribe (r : Roster α) (a : α) : Nat × Roster α :=
  (r.next, { next := r.next + 1, entries := r.entries ++ [(r.next, a)] })

def has (r : Roster α) (id : Nat) : Bool := r.entries.any (·.1 = id)

/-- Whether the subscriber was there, and the roster without it. -/
def unsubscribe (r : Roster α) (id : Nat) : Bool × Roster α :=
  (r.has id, { r with entries := r.entries.filter (·.1 ≠ id) })

/-- Numbers go on where they were. -/
def clear (r : Roster α) : Roster α := { r with entries := [] }

def count (r : Roster α) : Nat := r.entries.length

def ids (r : Roster α) : List Nat := r.entries.map (·.1)

/-- Every number given out so far, in this order. -/
def handedOut (r : Roster α) : List Nat := List.range r.next

end Roster
end TextReveal
