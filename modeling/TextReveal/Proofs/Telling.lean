import TextReveal.Proofs.Course
import TextReveal.Proofs.Staging
/-!
What the state of a player tells of its session. While a session may go on the state is typing, and
a session that ends by itself says how; one that is cancelled, or has broken down, leaves that to
whoever waits for it.
-/
namespace TextReveal

def State.after (state : State) : Effect → State
  | .setState state => state
  | .frame _ | .publish _ | .complete _ | .signal _ => state

namespace Session

/-- A session in a player of this state that keeps to it: the player types wherever the session may
stop, and shows its end unless it is cancelled or has broken down. It may be cancelled where it
stops. -/
def Tells : Session → Bool → State → Prop
  | .ended .completed, _, state => state = .completed
  | .ended .cancelled, cancelled, state => state = if cancelled then .typing else .cancelled
  | .crashed, _, state => state = .typing
  | .perform effect next, cancelled, state => next.Tells cancelled (state.after effect)
  | .resolve _ next, cancelled, state => ∀ found, (next found).Tells cancelled state
  | .check next, cancelled, state => (next cancelled).Tells cancelled state
  | .yield next, _, state | .breathe next, _, state =>
    state = .typing ∧ ∀ cancelled, next.Tells cancelled state
  | .sleep _ next, _, state =>
    state = .typing ∧
      ∀ (cancelled : Bool) (wake : Wake), (wake = .cancelled → cancelled = true) →
        (next wake).Tells cancelled state

theorem tells_abandon (id : Nat) (cancelled : Bool) : (abandon id).Tells cancelled .typing := by
  cases cancelled <;> rfl

theorem tells_guarded {id : Nat} {next : Unit → Session} (h : (next ()).Tells false .typing)
    (cancelled : Bool) : (guarded id next).Tells cancelled .typing := by
  cases cancelled with
  | true => exact tells_abandon id true
  | false => exact h

/-- Whatever the handlers do. A session that has just looked is not cancelled. -/
theorem Composed.tells {id : Nat} {asks : String → Prop} {woken : Bool} {s : Session}
    (h : Composed id (fun _ => True) asks woken s) {cancelled : Bool}
    (hfree : woken = false → cancelled = false) : s.Tells cancelled .typing := by
  induction h generalizing cancelled with
  | complete => rfl
  | abandon => exact tells_abandon id cancelled
  | crashed => rfl
  | frame _ ih => exact ih hfree
  | reveal _ ih => exact ih hfree
  | signal _ ih => exact ih hfree
  | resolve _ _ ih => exact fun found => ih found (fun _ _ => trivial) hfree
  | guarded _ ih => exact tells_guarded (ih fun _ => rfl) cancelled
  | yield _ ih => exact ⟨rfl, tells_guarded (ih fun _ => rfl)⟩
  | poised _ ih => exact ⟨rfl, tells_guarded (ih fun _ => rfl)⟩
  | sleep _ _ ih => exact ⟨rfl, fun _ wake _ => ih wake (fun hwoken => nomatch hwoken)⟩

theorem tells_start (id : Nat) (policy : UnknownTags) (source : String) (tags : List Tag)
    (speed : Number.Single) (cancelled : Bool) :
    (start id policy source tags speed).Tells cancelled .typing :=
  (composed_start id _ policy source tags speed true).tells fun hwoken => nomatch hwoken

end Session

/-- The same of a session that has stopped. -/
def Status.Tells (cancelled : Bool) (state : State) : Status → Prop
  | .ready s => state = .typing ∧ ∀ cancelled, s.Tells cancelled state
  | .asleep _ next =>
    state = .typing ∧
      ∀ (cancelled : Bool) (wake : Wake), (wake = .cancelled → cancelled = true) →
        (next wake).Tells cancelled state
  | .ended .completed => state = .completed
  | .ended .cancelled => state = if cancelled then .typing else .cancelled
  | .crashed => state = .typing

namespace Status.Tells
variable {cancelled : Bool} {state : State} {status : Status}

/-- As long as the player types, the session may be cancelled. -/
theorem cancel (h : status.Tells false .typing) : status.Tells true .typing := by
  cases status with
  | ready => exact h
  | asleep => exact h
  | ended outcome => cases outcome <;> cases h
  | crashed => exact h

theorem isOver (h : status.Tells cancelled state) (hstate : state ≠ .typing) : status.isOver := by
  cases status with
  | ready => exact absurd h.1 hstate
  | asleep => exact absurd h.1 hstate
  | ended => rfl
  | crashed => rfl

theorem of_completed (h : status.Tells cancelled state) (ho : status.outcome? = some .completed) :
    state = .completed := by
  cases status <;> cases ho
  exact h

theorem of_cancelled (h : status.Tells false state) (ho : status.outcome? = some .cancelled) :
    state = .cancelled ∨ status = .crashed := by
  cases status <;> cases ho
  · exact .inl h
  · exact .inr rfl

end Status.Tells

namespace Stage
variable {σ : Type}

theorem state_perform (st : Stage σ) (e : Effect) :
    (st.perform e).player.state = st.player.state.after e := by
  have h := congrArg View.state (view_perform st e)
  cases e <;> exact h

theorem state_foldl_perform (st : Stage σ) (effects : List Effect) :
    (effects.foldl perform st).player.state = effects.foldl State.after st.player.state := by
  induction effects generalizing st with
  | nil => rfl
  | cons e effects ih => rw [List.foldl_cons, ih, state_perform, List.foldl_cons]

variable [TimeBase σ] {cancelled : Bool} {st : Stage σ}

theorem Drives.tells {through fails : Bool} {s : Session} {after : Status × Stage σ}
    (h : Drives ⟨cancelled, through⟩ s st fails after) (hs : s.Tells cancelled st.player.state) :
    after.1.Tells cancelled after.2.player.state := by
  -- Whether it is cancelled may have changed only where it had stopped, and there it tells of both.
  induction h with
  | @ended outcome => cases outcome <;> exact hs
  | crashed => exact hs
  | perform _ ih =>
    refine ih ?_
    rw [state_perform]
    exact hs
  | resolve _ ih => exact ih (hs _)
  | check _ ih => exact ih hs
  | yield _ ih => exact ih (hs.2 cancelled)
  | yields => exact hs
  | breathe _ ih => exact ih (hs.2 cancelled)
  | breathes => exact hs
  | elapsed _ _ ih => exact ih (hs.2 cancelled .elapsed (by simp))
  | failed _ _ ih => exact ih (hs.2 cancelled (.failed _) (by simp))
  | cancelled _ hcancelled _ ih => exact ih (hs.2 cancelled .cancelled fun _ => hcancelled)
  | asleep => exact hs

theorem Resumes.tells {through fails : Bool} {status : Status} {after : Status × Stage σ}
    (h : Resumes ⟨cancelled, through⟩ status st fails after)
    (hstatus : status.Tells cancelled st.player.state) :
    after.1.Tells cancelled after.2.player.state := by
  cases h with
  | ended => exact hstatus
  | crashed => exact hstatus
  | ready h => exact h.tells (hstatus.2 cancelled)
  | cancelled hcancelled h => exact h.tells (hstatus.2 cancelled .cancelled fun _ => hcancelled)
  | elapsed _ _ h => exact h.tells (hstatus.2 cancelled .elapsed (by simp))
  | failed _ _ h => exact h.tells (hstatus.2 cancelled (.failed _) (by simp))
  | asleep => exact hstatus

end Stage
end TextReveal
