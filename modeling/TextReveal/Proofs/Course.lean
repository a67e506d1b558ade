import TextReveal.Player.Audience
import TextReveal.Proofs.Interleaving
/-!
The course of a session that nobody cancels and no clock fails: where it ends, what is seen then,
and how many steps it takes to get there.
-/
namespace TextReveal

/-- What those around a player see of it. -/
structure View where
  shown : String
  state : State
  deriving DecidableEq, Repr

namespace View

def after (v : View) : Effect → View
  | .frame text => { v with shown := text }
  | .setState state => { v with state }
  | .publish _ | .complete _ | .signal _ => v

end View

namespace Session

/-- How a session ends if no wait fails and nobody cancels it, and what is seen then. There is no
outcome if a handler breaks down. -/
def finish (r : Registry) : Session → View → Option Outcome × View
  | .ended outcome, v => (some outcome, v)
  | .crashed, v => (none, v)
  | .perform effect next, v => next.finish r (v.after effect)
  | .resolve name next, v => (next (r.get? name)).finish r v
  | .check next, v => (next false).finish r v
  | .yield next, v | .breathe next, v => next.finish r v
  | .sleep _ next, v => (next .elapsed).finish r v

/-- How many steps that takes. Falling asleep and waking up are two. -/
def span (r : Registry) : Session → Nat
  | .ended _ | .crashed => 1
  | .perform _ next | .yield next | .breathe next => next.span r + 1
  | .resolve name next => (next (r.get? name)).span r + 1
  | .check next => (next false).span r + 1
  | .sleep _ next => (next .elapsed).span r + 2

end Session

namespace Status

def finish (r : Registry) : Status → View → Option Outcome × View
  | .ready s, v => s.finish r v
  | .asleep _ next, v => (next .elapsed).finish r v
  | .ended outcome, v => (some outcome, v)
  | .crashed, v => (none, v)

def span (r : Registry) : Status → Nat
  | .ready s => s.span r
  | .asleep _ next => (next .elapsed).span r + 1
  | .ended _ | .crashed => 0

end Status

namespace Stage
variable {σ : Type}

def view (st : Stage σ) : View := ⟨st.display, st.player.state⟩

theorem view_note (st : Stage σ) (entry : Entry) :
    (st.note entry).view = match entry with
      | .frame text => { st.view with shown := text }
      | _ => st.view := by
  cases entry <;> simp [view, display, note]

theorem view_fire (st : Stage σ) (payload : String) : (st.fire payload).view = st.view := by
  unfold fire
  generalize st.listeners.ids = ids
  induction ids generalizing st with
  | nil => rfl
  | cons id ids ih => rw [List.foldl_cons, ih, view_note]

theorem view_perform (st : Stage σ) (e : Effect) : (st.perform e).view = st.view.after e := by
  cases e with
  | frame text => exact view_note st _
  | publish event => exact view_note _ _
  | setState => rfl
  | complete session =>
    simp only [perform, runCallback]
    split
    · exact view_note _ _
    · rfl
  | signal s =>
    cases s with
    | called call => exact view_note st _
    | action hub payload =>
      simp only [perform, signal]
      split
      · rw [view_fire]
        exact view_note st _
      · exact view_note st _

variable [TimeBase σ]

/-- Whether it can go on, or else is over or held up by the clock. -/
def goesOn : Status → Stage σ → Bool
  | .ready _, _ => true
  | .asleep seconds _, st =>
    match (TimeBase.again st.clock seconds).1 with
    | .pending => false
    | _ => true
  | _, _ => false

variable {through fails : Bool} {st : Stage σ} {after : Status × Stage σ}

theorem Drives.course {s : Session} (h : Drives ⟨false, through⟩ s st fails after)
    (hfails : fails = false) :
    after.1.finish st.registry after.2.view = s.finish st.registry st.view ∧
      after.1.span st.registry < s.span st.registry := by
  -- Each node is one step of the count, wherever the turn stops.
  induction h with
  | ended => exact ⟨rfl, Nat.zero_lt_one⟩
  | crashed => exact ⟨rfl, Nat.zero_lt_one⟩
  | @perform e next st _ _ _ ih =>
    obtain ⟨hfinish, hspan⟩ := ih hfails
    rw [(keeps_perform st e).registry] at hfinish hspan
    rw [view_perform] at hfinish
    exact ⟨hfinish, Nat.lt_succ_of_lt hspan⟩
  | resolve _ ih =>
    obtain ⟨hfinish, hspan⟩ := ih hfails
    exact ⟨hfinish, Nat.lt_succ_of_lt hspan⟩
  | check _ ih =>
    obtain ⟨hfinish, hspan⟩ := ih hfails
    exact ⟨hfinish, Nat.lt_succ_of_lt hspan⟩
  | yield _ ih =>
    obtain ⟨hfinish, hspan⟩ := ih hfails
    exact ⟨hfinish, Nat.lt_succ_of_lt hspan⟩
  | yields => exact ⟨rfl, Nat.lt_succ_self _⟩
  | breathe _ ih =>
    obtain ⟨hfinish, hspan⟩ := ih hfails
    exact ⟨hfinish, Nat.lt_succ_of_lt hspan⟩
  | breathes => exact ⟨rfl, Nat.lt_succ_self _⟩
  | elapsed _ _ ih =>
    obtain ⟨hfinish, hspan⟩ := ih hfails
    rw [view_note] at hfinish
    exact ⟨hfinish, Nat.lt_succ_of_lt (Nat.lt_succ_of_lt hspan)⟩
  | failed => cases hfails
  | cancelled _ hcancelled => cases hcancelled
  | asleep => exact ⟨congrArg _ (view_note _ _), Nat.lt_succ_self _⟩

theorem Resumes.course {status : Status} (h : Resumes ⟨false, through⟩ status st fails after)
    (hfails : fails = false) :
    after.1.finish st.registry after.2.view = status.finish st.registry st.view ∧
      after.1.span st.registry + (goesOn status st).toNat ≤ status.span st.registry := by
  cases h with
  | ended => exact ⟨rfl, Nat.le_refl _⟩
  | crashed => exact ⟨rfl, Nat.le_refl _⟩
  | ready h => exact h.course hfails
  | cancelled hcancelled => cases hcancelled
  | elapsed _ hanswer h =>
    obtain ⟨hfinish, hspan⟩ := h.course hfails
    rw [goesOn, hanswer]
    exact ⟨hfinish, Nat.succ_le_succ (Nat.le_of_lt hspan)⟩
  | failed => cases hfails
  | asleep _ hanswer =>
    rw [goesOn, hanswer]
    exact ⟨rfl, Nat.le_refl _⟩

/-- Whether the clock fails the session at `index` if it has its turn now. -/
def turnFails (throughYields : Bool) (index : Nat) (st : Stage σ) : Bool :=
  st.jobs[index]?.any fun j => resumeFails throughYields j.status st

/-- Whether that turn gets it anywhere. -/
def turnGoesOn (index : Nat) (st : Stage σ) : Bool :=
  st.jobs[index]?.any fun j => goesOn j.status st

/-- What a stage can become while its owner cancels nothing, its registry stays as it is and no
clock fails. The owner may begin to wait for the session. Turns that get anywhere are counted. -/
inductive Undisturbed (start : Stage σ) : Nat → Stage σ → Prop
  | begin : Undisturbed start 0 start
  | turn {n : Nat} {st : Stage σ} (h : Undisturbed start n st) (throughYields : Bool) (index : Nat)
    (hclock : st.turnFails throughYields index = false) :
    Undisturbed start (n + (st.turnGoesOn index).toNat) (st.turn throughYields index)
  | clock {n : Nat} {st : Stage σ} (h : Undisturbed start n st) (clock : σ) :
    Undisturbed start n { st with clock }
  | wait {n : Nat} {st : Stage σ} (h : Undisturbed start n st) :
    Undisturbed start n { st with player := { st.player with active := none } }

/-- The same where the clock may fail, but only becomes one that is `ok`. -/
inductive Unattended (ok : σ → Prop) (start : Stage σ) : Nat → Stage σ → Prop
  | begin : Unattended ok start 0 start
  | turn {n : Nat} {st : Stage σ} (h : Unattended ok start n st) (throughYields : Bool)
    (index : Nat) :
    Unattended ok start (n + (st.turnGoesOn index).toNat) (st.turn throughYields index)
  | clock {n : Nat} {st : Stage σ} (h : Unattended ok start n st) {clock : σ} (hclock : ok clock) :
    Unattended ok start n { st with clock }
  | wait {n : Nat} {st : Stage σ} (h : Unattended ok start n st) :
    Unattended ok start n { st with player := { st.player with active := none } }

theorem Undisturbed.unattended {n : Nat} {start st : Stage σ} (h : Undisturbed start n st) :
    Unattended (fun _ => True) start n st := by
  induction h with
  | begin => exact .begin
  | turn _ through index _ ih => exact ih.turn through index
  | clock _ clock ih => exact ih.clock trivial
  | wait _ ih => exact ih.wait

/-- How far a session that is alone on its stage is on its course after `n` turns. -/
structure OnCourse (id : Nat) (status : Status) (start : Stage σ) (n : Nat) (st : Stage σ)
    (status' : Status) : Prop where
  jobs : st.jobs = [⟨id, status', false⟩]
  registry : st.registry = start.registry
  config : st.player.config = start.player.config
  finish : status'.finish start.registry st.view = status.finish start.registry start.view
  span : status'.span start.registry + n ≤ status.span start.registry

theorem OnCourse.turn {id n : Nat} {status status' : Status} {start st : Stage σ} {through : Bool}
    {index : Nat} (h : OnCourse id status start n st status')
    (hclock : st.turnFails through index = false) :
    ∃ status'', OnCourse id status start (n + (st.turnGoesOn index).toNat)
      (st.turn through index) status'' := by
  cases index with
  | succ index =>
    have hnone : st.jobs[index + 1]? = none := by simp [h.jobs]
    rw [turn_lone_succ h.jobs, turnGoesOn, hnone]
    exact ⟨status', h⟩
  | zero =>
    have hhead : st.jobs[0]? = some ⟨id, status', false⟩ := by simp [h.jobs]
    rw [turnFails, hhead] at hclock
    have hnofail : resumeFails through status' st = false := by simpa using hclock
    obtain ⟨hfinish, hspan⟩ := (resumes_free through _ _).course hnofail
    have hkeeps := keeps_resume ⟨false, through⟩ status' st
    rw [h.registry] at hfinish hspan
    rw [turn_lone h.jobs, turnGoesOn, hhead]
    refine ⟨_, rfl, hkeeps.registry.trans h.registry, hkeeps.config.trans h.config,
      hfinish.trans h.finish, ?_⟩
    have hbefore := h.span
    simp only [Option.any_some]
    omega

/-- The end that a session comes to and what is seen there are settled when it starts, and so is how
many turns it takes at most. -/
theorem Undisturbed.onCourse {id n : Nat} {status : Status} {start st : Stage σ}
    (hjobs : start.jobs = [⟨id, status, false⟩]) (h : Undisturbed start n st) :
    ∃ status', OnCourse id status start n st status' := by
  induction h with
  | begin => exact ⟨status, hjobs, rfl, rfl, rfl, Nat.le_refl _⟩
  | turn _ through index hclock ih =>
    obtain ⟨status', h'⟩ := ih
    exact h'.turn hclock
  | clock _ clock ih =>
    obtain ⟨status', h'⟩ := ih
    exact ⟨status', { h' with }⟩
  | wait _ ih =>
    obtain ⟨status', h'⟩ := ih
    exact ⟨status', { h' with }⟩

end Stage
end TextReveal
