import TextReveal.Proofs.Curtailing
import TextReveal.Proofs.Lasting
/-!
How sessions over a timer conclude. Where the timer keeps nobody waiting one turn is enough, and a
session of which no wait is refused has done by then all that it was to do.
-/
namespace TextReveal
open Number

namespace Clock

theorem wait_of_isOpen {c : Clock} (h : c.isOpen) : c.wait = (.elapsed, c) := if_pos h

/-- An open clock keeps nobody waiting, and stays open. -/
theorem request_of_isOpen {c : Clock} (h : c.isOpen) (seconds : Single) :
    (TimeBase.request c seconds).1 ≠ .pending ∧ (TimeBase.request c seconds).2.isOpen := by
  have hwait : ({ c with requests := c.requests + 1 } : Clock).wait = _ := wait_of_isOpen h
  simp only [TimeBase.request]
  split
  · exact ⟨nofun, h⟩
  · split
    · rw [hwait]
      exact ⟨nofun, h⟩
    · rename_i hanswer
      exact ⟨hanswer, h⟩

end Clock

namespace Stage

theorem Drives.isOver {fails : Bool} {s : Session} {st : Stage Clock}
    {after : Status × Stage Clock} (h : Drives ⟨false, true⟩ s st fails after)
    (hopen : st.clock.isOpen) : after.1.isOver := by
  induction h with
  | ended => rfl
  | crashed => rfl
  | perform _ ih => exact ih (by rwa [clock_perform])
  | resolve _ ih => exact ih hopen
  | check _ ih => exact ih hopen
  | yield _ ih => exact ih hopen
  | yields hstops => cases hstops
  | breathe _ ih => exact ih hopen
  | breathes hstops => cases hstops
  | @elapsed seconds _ _ _ _ _ hanswer _ ih =>
    have hlater := (Clock.request_of_isOpen hopen seconds).2
    rw [hanswer] at hlater
    exact ih hlater
  | @failed seconds _ _ _ _ _ _ hanswer _ ih =>
    have hlater := (Clock.request_of_isOpen hopen seconds).2
    rw [hanswer] at hlater
    exact ih hlater
  | cancelled _ hcancelled => cases hcancelled
  | @asleep seconds _ _ _ hanswer =>
    exact absurd (congrArg Prod.fst hanswer) (Clock.request_of_isOpen hopen seconds).1

theorem Resumes.isOver {fails : Bool} {status : Status} {st : Stage Clock}
    {after : Status × Stage Clock} (h : Resumes ⟨false, true⟩ status st fails after)
    (hopen : st.clock.isOpen) : after.1.isOver := by
  have hagain : ∀ seconds, TimeBase.again st.clock seconds = (.elapsed, st.clock) :=
    fun _ => Clock.wait_of_isOpen hopen
  cases h with
  | ended => rfl
  | crashed => rfl
  | ready h => exact h.isOver hopen
  | cancelled hcancelled => cases hcancelled
  | elapsed _ hanswer h =>
    cases (hagain _).symm.trans hanswer
    exact h.isOver hopen
  | failed _ hanswer => cases (hagain _).symm.trans hanswer
  | asleep _ hanswer => cases (hagain _).symm.trans hanswer

variable {past : List Block} {b : Block} {t : Ticket} {status : Status} {begun after : Stage Clock}
  {n : Nat}

/-- If no wait is refused, it has done by then all that it was to do. -/
theorem Unattended.deeds_of_not_refused {id : Nat} (hjobs : begun.jobs = [⟨id, status, false⟩])
    (hfrail : status.Frail begun.registry) (htimer : begun.clock.IsTimer)
    (hrefused : (status.acts begun.registry).any Act.isRefused = false)
    (hrun : begun.Unattended Clock.IsTimer n after)
    (hover : ∀ j ∈ after.jobs, j.status.isOver) :
    after.deeds = begun.deeds ++ Act.deeds (status.acts begun.registry) := by
  cases hrun.fate hjobs hfrail htimer with
  | lasts h hjobs' =>
    rw [hjobs', List.forall_mem_singleton] at hover
    exact h.deeds_of_isOver hjobs hjobs' hover
  | refused _ hrefused' => exact absurd (hrefused.symm.trans hrefused') Bool.false_ne_true

/-- A session that is started on a vacant stage. -/
theorem Vacant.plays_launch {σ : Type} {blocks : List Block} {st : Stage σ}
    (h : Vacant blocks st) (hclosed : ∀ b ∈ blocks, b.ending.isSome) (text : String)
    (speed : Option Single) (callback : Bool) :
    ∃ b : Block, b.callback = callback ∧
      Plays blocks b ⟨st.started + 1, text, Tag.lex text,
        speed.getD st.player.config.defaultSpeed⟩ ⟨st.started + 1, st.opening text speed, false⟩
        (st.launch text speed callback).2 := by
  have hjobs := jobs_launch st text speed callback
  rw [h.jobs, List.nil_append] at hjobs
  have hlaunched := h.launch hclosed text speed callback
  generalize hb : Block.mk (blocks.length + 1) callback [] none = b at hlaunched
  cases hlaunched with
  | rests hvacant =>
    rw [hvacant.jobs] at hjobs
    cases hjobs
  | plays hblocks hplays hactive hfree =>
    cases hactive
    obtain ⟨rfl, hlast⟩ := List.append_inj' hblocks rfl
    obtain rfl := List.singleton_inj.mp hlast
    obtain rfl := List.singleton_inj.mp (hplays.jobs.symm.trans hjobs)
    exact ⟨b, by rw [← hb], hplays⟩

end Stage
end TextReveal
