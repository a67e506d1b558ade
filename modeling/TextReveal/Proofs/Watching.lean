import TextReveal.Proofs.Deciding
import TextReveal.Proofs.Printing
import TextReveal.Proofs.Skipping
/-!
The terminal program beside its session. It waits until the state is no longer that of typing, and
then finds out by the callback whether the session has completed. The session sets the state first.
-/
namespace TextReveal
open Relation

namespace Progress
variable {id : Nat} {p p' : Progress} {effect : Option Effect} {l : Ledger}

/-- What others can tell of the only session, whose owner has been waiting for its callback. -/
structure Shows (id : Nat) (p : Progress) (l : Ledger) : Prop where
  state : l.state = p.state
  waiting : l.waiting = if p = .heard then [] else [id]
  ran : l.ran = if p = .heard then [id] else []

theorem Leads.shows (h : p.Leads id effect p') (hl : p.Shows id l) :
    p'.Shows id (effect.elim l l.perform) := by
  obtain ⟨hstate, hwaiting, hran⟩ := hl
  cases h with
  | idle | frame | reveal | signal => exact ⟨hstate, hwaiting, hran⟩
  | complete | cancel => exact ⟨rfl, hwaiting, hran⟩
  | publish | report => exact ⟨hstate, hwaiting, hran⟩
  | call =>
    rw [if_neg nofun] at hwaiting hran
    simp only [Option.elim, Ledger.perform, hwaiting, List.mem_singleton, if_true]
    exact ⟨hstate, by simp, by simp [hran]⟩

/-- A session that does not type any more keeps to its state. -/
theorem Leads.state_eq (h : p.Leads id effect p') (hp : p.state ≠ .typing) :
    p'.state = p.state := by
  cases h <;> first | rfl | exact absurd rfl hp

theorem Leads.heard (h : p.Leads id effect p') (hp : p = .heard) : p' = .heard := by
  cases h <;> first | exact hp | cases hp

end Progress

namespace Terminal

/-- Whether the callback has run, as far as the program knows. -/
def completed {σ : Type} (st : Stage σ) : Bool := (st.journal.foldl Output.add {}).completed

theorem completed_iff {σ : Type} (st : Stage σ) : completed st ↔ st.ledger.ran ≠ [] := by
  rw [completed, ← Array.foldl_toList, completed_foldl_add]
  simp [Stage.ledger]

/-- How far the program is behind the start of its session. -/
inductive Watcher where
  | waits
  /-- It has seen this state, and waits no longer. -/
  | saw (state : State)
  /-- It has seen this state, and has asked whether the callback has run. -/
  | knows (state : State) (completed : Bool)
  deriving DecidableEq, Repr

/-- A step of the session, or of the program that watches it. -/
inductive Watch {σ : Type} : Watcher × Logged σ → Watcher × Logged σ → Prop
  | session {w : Watcher} {x y : Logged σ} (h : x.Move y) : Watch (w, x) (w, y)
  | leave {x : Logged σ} (h : x.stage.player.state ≠ .typing) :
    Watch (.waits, x) (.saw x.stage.player.state, x)
  | ask {x : Logged σ} {state : State} :
    Watch (.saw state, x) (.knows state (completed x.stage), x)

abbrev Watches {σ : Type} : Watcher × Logged σ → Watcher × Logged σ → Prop := ReflTransGen Watch

/-- The only session is there, and has come so far. -/
structure Goes {σ : Type} (status : Status) (p : Progress) (x : Logged σ) : Prop where
  jobs : x.stage.jobs = [⟨1, status, false⟩]
  stands : status.At 1 p
  shows : p.Shows 1 x.stage.ledger

variable {σ : Type} {x y : Logged σ} {status : Status} {p : Progress} {w : Watcher}

theorem Goes.move (h : Goes status p x) (hm : x.Move y) :
    ∃ status' p', Goes status' p' y ∧ (p.state ≠ .typing → p'.state = p.state) ∧
      (p = .heard → p' = .heard) := by
  obtain ⟨clock, registry, rfl⟩ | ⟨effect, p', status', st, hat', hleads, -, hledger, rfl⟩ :=
    hm.of_lone h.jobs h.stands
  · exact ⟨status, p, { h with }, fun _ => rfl, id⟩
  · have hshows : p'.Shows 1 st.ledger := hledger ▸ hleads.shows h.shows
    exact ⟨status', p', ⟨rfl, hat', hshows⟩, hleads.state_eq, hleads.heard⟩

theorem Goes.completed_iff (h : Goes status p x) : completed x.stage ↔ p = .heard := by
  rw [Terminal.completed_iff, h.shows.ran]
  split <;> simp [*]

/-- What the program has found out, beside a session that has come so far. -/
def Watcher.Agrees (p : Progress) : Watcher → Prop
  | waits => True
  | saw state => state ≠ .typing ∧ p.state = state
  | knows state completed => state ≠ .typing ∧ p.state = state ∧ (completed → p = .heard)

theorem Watcher.Agrees.of_state {p' : Progress} (h : w.Agrees p)
    (hstate : p.state ≠ .typing → p'.state = p.state) (hheard : p = .heard → p' = .heard) :
    w.Agrees p' := by
  cases w with
  | waits => trivial
  | saw state =>
    obtain ⟨htyping, rfl⟩ := h
    exact ⟨htyping, hstate htyping⟩
  | knows state completed =>
    obtain ⟨htyping, rfl, hknown⟩ := h
    exact ⟨htyping, hstate htyping, fun hc => hheard (hknown hc)⟩

theorem exists_goes_of_watch {before after : Watcher × Logged σ}
    (h : ∃ status p, Goes status p before.2 ∧ before.1.Agrees p) (hw : Watch before after) :
    ∃ status p, Goes status p after.2 ∧ after.1.Agrees p := by
  obtain ⟨status, p, hgoes, hagrees⟩ := h
  cases hw with
  | session hm =>
    obtain ⟨status', p', hgoes', hstate, hheard⟩ := hgoes.move hm
    exact ⟨status', p', hgoes', hagrees.of_state hstate hheard⟩
  | leave htyping => exact ⟨status, p, hgoes, htyping, hgoes.shows.state.symm⟩
  | ask => exact ⟨status, p, hgoes, hagrees.1, hagrees.2, hgoes.completed_iff.mp⟩

variable {options : Options} {text : String} {st : Stage Clock}

theorem exists_goes_of_opening (h : opening options text = .ok st) (log : List Mark) :
    ∃ status, Goes status .going ⟨st, log⟩ := by
  obtain ⟨before, hprepares, rfl⟩ := exists_prepares h
  have hvacant := hprepares.vacant
  have hstarted : before.started = 0 := hvacant.started
  have hjobs := Stage.jobs_launch before text none true
  have hledger := Stage.ledger_launch before text none true
  have hat : Status.At (before.started + 1) .going (before.opening text none) :=
    .ready (Session.undecided_start ..)
  rw [hvacant.jobs, hstarted] at hjobs
  rw [hstarted] at hledger hat
  refine ⟨_, hjobs, hat, ?_⟩
  rw [hledger]
  exact ⟨rfl, by simp [Ledger.launch, hvacant.records.waiting],
    by simp [Ledger.launch, hvacant.records.ran]⟩

/-- Wherever the program stops waiting, it sees how the session has ended. When it then asks whether
the callback has run, the answer agrees with what it has seen, unless the session has set its state
to completed and is still on its way to the callback. A callback that has run is no mistake. -/
theorem agrees_unless_completing (hopening : opening options text = .ok st) :
    (∀ state x, Watches (.waits, ⟨st, [.told (.started 1)]⟩) (.saw state, x) →
      state ≠ .typing ∧ ∃ status p, Goes status p x ∧
        ((completed x.stage ↔ state = .completed) ↔ p ≠ .completing ∧ p ≠ .completed) ∧
        (status.isOver → (completed x.stage ↔ state = .completed))) ∧
    ∀ state completed x, Watches (.waits, ⟨st, [.told (.started 1)]⟩) (.knows state completed, x) →
      completed → state = .completed := by
  obtain ⟨status, hgoes⟩ := exists_goes_of_opening hopening [.told (.started 1)]
  have hwatches {after : Watcher × Logged Clock}
      (h : Watches (.waits, ⟨st, [.told (.started 1)]⟩) after) :
      ∃ status p, Goes status p after.2 ∧ after.1.Agrees p := by
    induction h with
    | refl => exact ⟨status, .going, hgoes, trivial⟩
    | tail _ hw ih => exact exists_goes_of_watch ih hw
  refine ⟨fun state x h => ?_, fun state completed x h hcompleted => ?_⟩
  · obtain ⟨status, p, hgoes, htyping, rfl⟩ := hwatches h
    have hagrees : (completed x.stage ↔ p.state = .completed) ↔
        p ≠ .completing ∧ p ≠ .completed := by
      rw [hgoes.completed_iff]
      cases p <;> simp [Progress.state] at htyping ⊢
    refine ⟨htyping, status, p, hgoes, hagrees, fun hover => hagrees.mpr ?_⟩
    have hat := hgoes.stands
    constructor <;> rintro rfl <;> cases hat <;> cases hover
  · obtain ⟨status, p, -, -, rfl, hheard⟩ := hwatches h
    rw [hheard hcompleted]
    rfl

theorem watches_of_follow? {turns : List Turn} {x : Logged Clock}
    (h : turns.foldlM Logged.follow? (Request.done (), ⟨st, [.told (.started 1)]⟩) =
      some (.done (), x)) :
    Watches (.waits, ⟨st, [.told (.started 1)]⟩) (.waits, x) := by
  obtain ⟨-, hms⟩ | ⟨_, _, _, ⟨_, hown, -⟩, -⟩ :=
    Logged.cases_of_steps (Logged.steps_of_follow? h)
  · exact hms.lift (Watcher.waits, ·) fun _ _ hm => .session hm
  · cases hown

theorem exists_opening (options : Options) (text : String) (turns : List Turn) {β : Type}
    (f : Stage Clock → β) {b : β}
    (h : ((opening options text).toOption.bind fun st =>
      (turns.foldlM Logged.follow? (Request.done (), ⟨st, [.told (.started 1)]⟩)).map fun r =>
        (r.1.answer?, f r.2.stage)) = some (some (), b)) :
    ∃ st x, opening options text = .ok st ∧
      Watches (.waits, ⟨st, [.told (.started 1)]⟩) (.waits, x) ∧ f x.stage = b := by
  simp only [Option.bind_eq_some_iff, Option.map_eq_some_iff, Prod.mk.injEq] at h
  obtain ⟨st, hst, ⟨r, x⟩, hturns, hr, hf⟩ := h
  obtain rfl := Request.answer?_eq_some.mp hr
  refine ⟨st, x, ?_, watches_of_follow? hturns, hf⟩
  cases hopening : opening options text with
  | error refusal => rw [hopening] at hst; cases hst
  | ok st' => rw [hopening] at hst; cases hst; rfl

/-- A session that is waited for to its end. -/
theorem agrees_at_end : ∃ st x, opening {} "a" = .ok st ∧
    Watches (.waits, ⟨st, [.told (.started 1)]⟩) (.saw .completed, x) ∧ completed x.stage := by
  obtain ⟨st, x, hopening, hwatches, hx⟩ := exists_opening {} "a"
    (.replicate 12 (.session 0 .elapsed))
    (fun st => (st.player.state, st.jobs.all (·.status.isOver))) (b := (.completed, true))
    (by decide +kernel)
  obtain ⟨hstate, hover⟩ := Prod.mk.inj hx
  have hleave := hwatches.tail (.leave (by rw [hstate]; nofun))
  rw [hstate] at hleave
  obtain ⟨-, status, p, hgoes, -, hagrees⟩ := (agrees_unless_completing hopening).1 _ x hleave
  rw [hgoes.jobs] at hover
  exact ⟨st, x, hopening, hleave, (hagrees (by simpa using hover)).mpr rfl⟩

/-- The program sees that the session has completed, and is told that it has not. -/
theorem runs_ahead_of_callback : ∃ st x, opening {} "a" = .ok st ∧
    Watches (.waits, ⟨st, [.told (.started 1)]⟩) (.knows .completed false, x) := by
  obtain ⟨st, x, hopening, hwatches, hx⟩ := exists_opening {} "a"
    (.replicate 9 (.session 0 .elapsed)) (fun st => (st.player.state, completed st))
    (b := (.completed, false)) (by decide +kernel)
  obtain ⟨hstate, hcompleted⟩ := Prod.mk.inj hx
  have hasked := (hwatches.tail (.leave (by rw [hstate]; nofun))).tail .ask
  rw [hstate, hcompleted] at hasked
  exact ⟨st, x, hopening, hasked⟩

end Terminal
end TextReveal
