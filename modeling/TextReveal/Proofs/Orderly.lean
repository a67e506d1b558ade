import TextReveal.Proofs.Composing
import TextReveal.Proofs.Driving
import TextReveal.Proofs.Ledger
/-!
Sessions keep order in their own blocks: over handlers that do not break down, they announce as they
go and publish one ending. One that is cancelled leaves in silence, wherever it has stopped. Only a
session over the empty text never looks whether it is.
-/
namespace TextReveal

namespace Session

/-- A cancelled session that looks, and leaves. -/
def Silent : Session → Prop
  | .ended outcome => outcome = .cancelled
  | .check next => (next true).Silent
  | _ => False

/-- What is left of the session numbered `id` while nobody cancels it: it does nothing to the state
before its ending, and nothing at all behind it. It can be cancelled wherever it may stop. -/
inductive Orderly (id : Nat) : Session → Prop
  | complete : Orderly id (.complete id)
  | report : Orderly id ((Ending.cancelled.effects id).foldr .perform (.ended .cancelled))
  | frame {text : String} {next : Session} (h : Orderly id next) :
    Orderly id (.perform (.frame text) next)
  | reveal {text : String} {offset : Nat} {next : Session} (h : Orderly id next) :
    Orderly id (.perform (.publish (.revealed text offset)) next)
  | signal {s : Signal} {next : Session} (h : Orderly id next) :
    Orderly id (.perform (.signal s) next)
  | resolve {name : String} {next : Option Handler → Session}
    (h : ∀ found : Option Handler, (∀ h ∈ found, h.Sound) → Orderly id (next found)) :
    Orderly id (.resolve name next)
  | check {next : Bool → Session} (h : Orderly id (next false)) : Orderly id (.check next)
  | yield {next : Session} (hs : next.Silent) (h : Orderly id next) : Orderly id (.yield next)
  | breathe {next : Session} (hs : next.Silent) (h : Orderly id next) : Orderly id (.breathe next)
  | sleep {seconds : Number.Single} {next : Wake → Session} (hs : (next .cancelled).Silent)
    (h : ∀ wake, Orderly id (next wake)) : Orderly id (.sleep seconds next)

theorem silent_abandon (id : Nat) : (abandon id).Silent := rfl

theorem silent_guarded (id : Nat) (next : Unit → Session) : (guarded id next).Silent := rfl

/-- Over handlers that do not break down. -/
theorem Composed.orderly {id : Nat} {asks : String → Prop} {woken : Bool} {s : Session}
    (h : Composed id Handler.Sound asks woken s) : Orderly id s := by
  induction h with
  | complete => exact .complete
  | abandon => exact .check .report
  | crashed hmeets hsound => exact absurd hmeets hsound
  | frame _ ih => exact .frame ih
  | reveal _ ih => exact .reveal ih
  | signal _ ih => exact .signal ih
  | resolve _ _ ih => exact .resolve ih
  | guarded _ ih => exact .check ih
  | yield _ ih => exact .yield (silent_guarded id _) (.check ih)
  | poised _ ih => exact .breathe (silent_guarded id _) (.check ih)
  | sleep hcancelled _ ih => exact .sleep (hcancelled ▸ silent_abandon id) ih

theorem orderly_start (id : Nat) (policy : UnknownTags) (source : String) (tags : List Tag)
    (speed : Number.Single) : Orderly id (start id policy source tags speed) :=
  (composed_start id Handler.Sound policy source tags speed false).orderly

/-- Before its first turn a session looks, unless it is over the empty text. -/
theorem silent_start (id : Nat) (policy : UnknownTags) (source : String) (tags : List Tag)
    (speed : Number.Single) : (start id policy source tags speed).Silent ∨
      source = "" ∧ start id policy source tags speed = complete id := by
  unfold start
  cases hchars : source.toList with
  | nil => exact .inr ⟨String.toList_eq_nil_iff.mp hchars, rfl⟩
  | cons c rest =>
    left
    rw [reveal, if_neg (Nat.lt_irrefl 0)]
    exact silent_guarded id _

end Session
end TextReveal
