import TextReveal.Proofs.Failing
import TextReveal.Proofs.Pacing
/-!
Sessions over a timer. A timer fails what is no length of time, and a failed wait ends a session
over the built-in handlers.
-/
namespace TextReveal
open Number

namespace LiveEffect

/-- An effect that only reports a failure of the clock. -/
def BlamesClock : LiveEffect → Prop
  | .done reply => ∃ reason, reply.verdict = .failed (.clock reason)
  | .signal _ next => next.BlamesClock
  | .wait .. => False

/-- An effect that reports the first wait that fails. -/
def Frail : LiveEffect → Prop
  | .done _ => True
  | .signal _ next => next.Frail
  | .wait _ resume =>
    (∀ reason, (resume (.error reason)).BlamesClock) ∧ (resume (.ok ())).Frail

theorem frail_iff {effect : LiveEffect} : effect.Frail ↔ effect.FailsTo BlamesClock := by
  induction effect with
  | done reply => exact Iff.rfl
  | signal s effect ih => exact ih
  | wait seconds resume ih => exact and_congr_right fun _ => ih _

end LiveEffect

def Handler.Frail (h : Handler) : Prop :=
  ∀ ctx parameter, (h.openLive ctx parameter).Frail

def Registry.Frail (r : Registry) : Prop := ∀ name h, r.get? name = some h → h.Frail

theorem Handler.Frail.of_untimed {h : Handler} (hlive : h.live = none) : h.Frail := by
  intro ctx parameter
  rw [openLive, hlive]
  trivial

theorem Registry.IsBuiltin.frail {hub : HubRef} {name : String} {h : Handler}
    (hb : IsBuiltin hub name h) : h.Frail := by
  cases hb with
  | pause =>
    intro ctx parameter
    simp only [Handler.openLive, Handler.pause]
    split
    · trivial
    · split
      · exact ⟨fun reason => ⟨reason, rfl⟩, trivial⟩
      · trivial
  | _ => exact .of_untimed rfl

theorem Registry.frail_withBuiltins (hub : HubRef) : (withBuiltins hub).Frail :=
  fun _ _ hget => (get?_withBuiltins.mp hget).frail

namespace Session

/-- A session, not cancelled, that does nothing more than report that it is. -/
def GivesUp : Session → Prop
  | .ended outcome => outcome = .cancelled
  | .perform _ next => next.GivesUp
  | .check next => (next false).GivesUp
  | _ => False

/-- A session that gives up when a wait fails, as far as it comes without that. -/
def Frail (r : Registry) : Session → Prop
  | .ended _ | .crashed => True
  | .perform _ next | .yield next | .breathe next => next.Frail r
  | .resolve name next => (next (r.get? name)).Frail r
  | .check next => (next false).Frail r
  | .sleep _ next => (∀ reason, (next (.failed reason)).GivesUp) ∧ (next .elapsed).Frail r

variable {id : Nat} {r : Registry}

theorem givesUp_abandon (id : Nat) : (abandon id).GivesUp := rfl

theorem givesUp_signals {list : List Signal} {next : Session} (h : next.GivesUp) :
    (signals list next).GivesUp := by
  induction list with
  | nil => exact h
  | cons s list ih => exact ih

theorem givesUp_ofLive {effect : LiveEffect} {next : Context → Response → Session}
    (h : effect.BlamesClock) : (ofLive id next effect).GivesUp := by
  induction effect with
  | done reply =>
    obtain ⟨reason, hverdict⟩ := h
    refine givesUp_signals ?_
    rw [if_neg (by simp [hverdict]), guarded, GivesUp, if_neg (by simp), judge, hverdict]
    exact givesUp_abandon id
  | signal s effect ih => exact ih h
  | wait => cases h

theorem frail_iff {s : Session} : s.Frail r ↔ s.FailsTo GivesUp r := by
  induction s with
  | ended => exact Iff.rfl
  | crashed => exact Iff.rfl
  | perform _ next ih => exact ih
  | resolve name next ih => exact ih _
  | check next ih => exact ih false
  | yield next ih => exact ih
  | breathe next ih => exact ih
  | sleep seconds next ih => exact and_congr_right fun _ => ih .elapsed

theorem frail_reveal (hr : r.Frail) (policy : UnknownTags) (chars : List Char)
    (position resume steps : Nat) (tags : List Tag) (ctx : Context) :
    (reveal id policy chars position resume steps tags ctx).Frail r := by
  have hfails : r.FailsTo LiveEffect.BlamesClock := fun name h hget ctx parameter =>
    LiveEffect.frail_iff.mp (hr name h hget ctx parameter)
  exact frail_iff.mpr
    (failsTo_reveal (givesUp_abandon id) (fun _ _ => givesUp_ofLive) hfails ..)

end Session

def Status.Frail (r : Registry) : Status → Prop
  | .ready s => s.Frail r
  | .asleep _ next => (next .elapsed).Frail r
  | .ended _ | .crashed => True

namespace Clock

/-- A timer that fails no waits but those that are too long for it. -/
def IsTimer (c : Clock) : Prop := c.kind = .timer ∧ c.failAt = 0

/-- Whether a timer takes this for no length of time, or for one that is too long. -/
def refuses (seconds : Single) : Bool :=
  match timerAnswer seconds with
  | .failed _ => true
  | .elapsed | .pending => false

theorem isTimer_wait {c : Clock} (h : c.IsTimer) : c.wait.2.IsTimer := by
  unfold wait
  split
  · exact h
  · split <;> exact h

theorem wait_not_failed (c : Clock) (reason : String) : c.wait.1 ≠ .failed reason := by
  unfold wait
  split
  · simp
  · split <;> simp

theorem request_of_isTimer {c : Clock} (h : c.IsTimer) (seconds : Single) :
    TimeBase.request c seconds = match timerAnswer seconds with
      | .pending => ({ c with requests := c.requests + 1 } : Clock).wait
      | answer => (answer, { c with requests := c.requests + 1 }) := by
  have hnever : ¬c.requests + 1 = c.failAt := by
    rw [h.2]
    exact Nat.succ_ne_zero _
  have hlength : ({ c with requests := c.requests + 1 } : Clock).firstAnswer seconds =
      timerAnswer seconds := by rw [firstAnswer, h.1]
  rw [← hlength]
  exact if_neg hnever

/-- A timer answers by the length of the wait. -/
theorem isTimer_request {c : Clock} (h : c.IsTimer) (seconds : Single) :
    (TimeBase.request c seconds).2.IsTimer ∧
      (refuses seconds ↔ ∃ reason, (TimeBase.request c seconds).1 = .failed reason) := by
  have hnext : ({ c with requests := c.requests + 1 } : Clock).IsTimer := h
  rw [request_of_isTimer h, refuses]
  cases timerAnswer seconds with
  | elapsed => exact ⟨hnext, by simp⟩
  | failed reason => exact ⟨hnext, by simp⟩
  | pending => exact ⟨isTimer_wait hnext, by simp [wait_not_failed]⟩

theorem isTimer_again {c : Clock} (h : c.IsTimer) (seconds : Single) :
    (TimeBase.again c seconds).2.IsTimer ∧
      ∀ reason, (TimeBase.again c seconds).1 ≠ .failed reason :=
  ⟨isTimer_wait h, wait_not_failed c⟩

end Clock

/-- Whether an act is a wait that a timer refuses. -/
def Act.isRefused : Act → Bool
  | asked seconds => Clock.refuses seconds
  | did _ | looked | yielded | finished _ => false

namespace Stage

/-- What a turn over a timer comes to for a session with these acts before it. If a wait fails, it
is one of those acts that is refused, and the session ends there. -/
structure Fares (acts : List Act) (fails : Bool) (r : Registry) (after : Status × Stage Clock) :
    Prop where
  timer : after.2.clock.IsTimer
  frail : after.1.Frail r
  refused : acts.any Act.isRefused = (fails || (after.1.acts r).any Act.isRefused)
  ends : fails → after.1 = .ended .cancelled

variable {st : Stage Clock}

theorem Fares.stops (status : Status) {r : Registry} (h : st.clock.IsTimer)
    (hfrail : status.Frail r) : Fares (status.acts r) false r (status, st) :=
  ⟨h, hfrail, rfl, nofun⟩

/-- A step that is not refused. -/
theorem Fares.cons {acts : List Act} {act : Act} {fails : Bool} {r : Registry}
    {after : Status × Stage Clock} (hact : act.isRefused = false) (h : Fares acts fails r after) :
    Fares (act :: acts) fails r after := by
  refine ⟨h.timer, h.frail, ?_, h.ends⟩
  rw [List.any_cons, hact, Bool.false_or, h.refused]

variable {fails through : Bool} {after : Status × Stage Clock}

theorem Drives.givesUp {s : Session} (h : Drives ⟨false, through⟩ s st fails after)
    (hs : s.GivesUp) : after.1 = .ended .cancelled ∧ after.2.clock = st.clock := by
  induction h with
  | ended =>
    cases hs
    exact ⟨rfl, rfl⟩
  | perform _ ih =>
    obtain ⟨hends, hclock⟩ := ih hs
    exact ⟨hends, hclock.trans (clock_perform _ _)⟩
  | check _ ih => exact ih hs
  | _ => cases hs

theorem Drives.fares {s : Session} (h : Drives ⟨false, through⟩ s st fails after)
    (hs : s.Frail st.registry) (htimer : st.clock.IsTimer) :
    Fares (s.acts st.registry) fails st.registry after := by
  induction h with
  | @ended outcome => exact .stops (.ended outcome) htimer trivial
  | crashed => exact .stops .crashed htimer trivial
  | @perform e next st _ _ _ ih =>
    have hregistry := (keeps_perform st e).registry
    have hclock := clock_perform st e
    have hnext := ih (by rwa [hregistry]) (by rwa [hclock])
    rw [hregistry] at hnext
    exact hnext.cons rfl
  | resolve _ ih => exact ih hs htimer
  | check _ ih => exact (ih hs htimer).cons rfl
  | yield _ ih => exact (ih hs htimer).cons rfl
  | @yields next => exact (Fares.stops (.ready next) htimer hs).cons rfl
  | breathe _ ih => exact ih hs htimer
  | @breathes next => exact .stops (.ready next) htimer hs
  | @elapsed seconds next st clock _ _ hanswer _ ih =>
    obtain ⟨hlater, hrefuses⟩ := Clock.isTimer_request htimer seconds
    rw [hanswer] at hlater
    have hkept : (Act.asked seconds).isRefused = false := by
      simpa [hanswer, Act.isRefused] using hrefuses
    exact (ih hs.2 hlater).cons hkept
  -- What comes behind the failed wait asks for nothing more.
  | @failed seconds next st clock reason _ _ hanswer hnext _ =>
    obtain ⟨hlater, hrefuses⟩ := Clock.isTimer_request htimer seconds
    have hrefused : Clock.refuses seconds = true :=
      hrefuses.mpr ⟨reason, congrArg Prod.fst hanswer⟩
    rw [hanswer] at hlater
    obtain ⟨hends, hclock⟩ := hnext.givesUp (hs.1 reason)
    refine ⟨?_, ?_, ?_, fun _ => hends⟩
    · rw [hclock]
      exact hlater
    · rw [hends]
      trivial
    · rw [Session.acts, List.any_cons, Act.isRefused, hrefused]
      rfl
  | cancelled _ hcancelled => cases hcancelled
  | @asleep seconds next st clock hanswer =>
    obtain ⟨hlater, hrefuses⟩ := Clock.isTimer_request htimer seconds
    rw [hanswer] at hlater
    have hkept : (Act.asked seconds).isRefused = false := by
      simpa [hanswer, Act.isRefused] using hrefuses
    have hstopped := @Fares.stops ({ st with clock }.note (.asked seconds)) (.asleep seconds next)
      st.registry hlater hs.2
    exact hstopped.cons hkept

theorem Resumes.fares {status : Status} (h : Resumes ⟨false, through⟩ status st fails after)
    (hstatus : status.Frail st.registry) (htimer : st.clock.IsTimer) :
    Fares (status.acts st.registry) fails st.registry after := by
  cases h with
  | @ended outcome => exact .stops (.ended outcome) htimer hstatus
  | crashed => exact .stops .crashed htimer hstatus
  | ready h => exact h.fares hstatus htimer
  | cancelled hcancelled => cases hcancelled
  | @elapsed seconds _ _ _ _ _ _ hanswer h =>
    have hlater := (Clock.isTimer_again htimer seconds).1
    rw [hanswer] at hlater
    exact h.fares hstatus hlater
  | @failed seconds _ _ _ reason _ _ _ hanswer =>
    exact absurd (congrArg Prod.fst hanswer) ((Clock.isTimer_again htimer seconds).2 reason)
  | @asleep seconds next _ _ _ hanswer =>
    have hlater := (Clock.isTimer_again htimer seconds).1
    rw [hanswer] at hlater
    exact .stops (.asleep seconds next) hlater hstatus

end Stage
end TextReveal
