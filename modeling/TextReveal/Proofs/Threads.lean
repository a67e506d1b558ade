import TextReveal.Proofs.Scenes
/-!
Sessions and owner on threads of their own. Whoever comes next takes a single step: a look, an
effect, or an answer of the clock. A log tells how the owner has found the state, and which events
the sessions have published themselves.
-/
namespace TextReveal
open Relation

/-- What is noted of a step. -/
inductive Mark where
  /-- The owner has looked at the state. -/
  | looked (state : State)
  /-- The owner has published an event. -/
  | told (event : Event)
  /-- A session has published an event. -/
  | reported (event : Event)
  deriving DecidableEq, Repr

def Mark.event? : Mark → Option Event
  | looked _ => none
  | told event | reported event => some event

def Effect.event? : Effect → Option Event
  | publish event => some event
  | frame _ | setState _ | complete _ | signal _ => none

/-- The stage with these sessions on it. -/
def Stage.withJobs {σ : Type} (st : Stage σ) (jobs : List Job) : Stage σ := { st with jobs }

namespace Status
variable {σ : Type}

/-- One step of a session. A sleep ends as `wake` says, but in a cancellation only if there is
one. -/
def step? (cancelled : Bool) (wake : Wake) : Status → Stage σ → Option (Status × Stage σ)
  | .ready (.ended outcome), st => some (.ended outcome, st)
  | .ready .crashed, st => some (.crashed, st)
  | .ready (.perform effect next), st => some (.ready next, st.perform effect)
  | .ready (.resolve name next), st => some (.ready (next (st.registry.get? name)), st)
  | .ready (.check next), st => some (.ready (next cancelled), st)
  | .ready (.yield next), st | .ready (.breathe next), st => some (.ready next, st)
  | .ready (.sleep seconds next), st => some (.asleep seconds next, st.note (.asked seconds))
  | .asleep _ next, st =>
    if wake = .cancelled ∧ cancelled = false then none else some (.ready (next wake), st)
  | .ended _, _ | .crashed, _ => none

def mark? : Status → Option Mark
  | .ready (.perform effect _) => effect.event?.map .reported
  | _ => none

end Status

def Request.mark? {α σ : Type} : Request α → Stage σ → Option Mark
  | .readState _, st => some (.looked st.player.state)
  | .perform effect _, _ => effect.event?.map .told
  | .launch .., st => some (.told (.started (st.started + 1)))
  | _, _ => none

/-- A stage with the log that has led to it. -/
structure Logged (σ : Type) where
  stage : Stage σ
  log : List Mark := []

namespace Logged
variable {α σ : Type}

def add (x : Logged σ) (st : Stage σ) (mark : Option Mark) : Logged σ := ⟨st, x.log ++ mark.toList⟩

/-- A session takes a step, or somebody changes the clock or the registry. -/
inductive Move : Logged σ → Logged σ → Prop
  | session {x : Logged σ} {index : Nat} {wake : Wake} {j : Job} {status : Status} {st : Stage σ}
    (hj : x.stage.jobs[index]? = some j)
    (hs : j.status.step? j.cancelled wake x.stage = some (status, st)) :
    Move x (x.add (st.withJobs (x.stage.jobs.set index { j with status })) j.status.mark?)
  | clock (x : Logged σ) (clock : σ) : Move x { x with stage := { x.stage with clock } }
  | registry (x : Logged σ) (registry : Registry) :
    Move x { x with stage := { x.stage with registry } }

abbrev Moves : Logged σ → Logged σ → Prop := ReflTransGen Move

/-- A step of the owner's. -/
def Own (before after : Request α × Logged σ) : Prop :=
  ∃ st, before.1.step? before.2.stage = some (after.1, st) ∧
    after.2 = before.2.add st (before.1.mark? before.2.stage)

inductive Step : Request α × Logged σ → Request α × Logged σ → Prop
  | own {before after : Request α × Logged σ} (h : Own before after) : Step before after
  | move {request : Request α} {x y : Logged σ} (h : x.Move y) : Step (request, x) (request, y)

abbrev Steps : Request α × Logged σ → Request α × Logged σ → Prop := ReflTransGen Step

/-- What a player can have come to between two calls of its owner. -/
inductive Past (start : Stage σ) : Logged σ → Prop
  | begin : Past start ⟨start, []⟩
  | move {x y : Logged σ} (h : Past start x) (hm : x.Move y) : Past start y
  | call {x y : Logged σ} (h : Past start x) (c : Command) {answer : c.Answer}
    (hs : Steps (c.request, x) (.done answer, y)) : Past start y

theorem Past.moves {start : Stage σ} {x y : Logged σ} (h : Past start x) (hm : x.Moves y) :
    Past start y := by
  induction hm with
  | refl => exact h
  | tail _ hm ih => exact ih.move hm

theorem steps_of_moves {request : Request α} {x y : Logged σ} (h : x.Moves y) :
    Steps (request, x) (request, y) := by
  induction h with
  | refl => exact .refl
  | tail _ hm ih => exact ih.tail (.move hm)

/-- Either only others have moved, or the owner has taken a first step. -/
theorem cases_of_steps {before after : Request α × Logged σ} (h : Steps before after) :
    before.1 = after.1 ∧ before.2.Moves after.2 ∨
      ∃ x mid, before.2.Moves x ∧ Own (before.1, x) mid ∧ Steps mid after := by
  induction h using ReflTransGen.head_induction_on with
  | refl => exact .inl ⟨rfl, .refl⟩
  | head hstep hrest ih =>
    cases hstep with
    | own hown => exact .inr ⟨_, _, .refl, hown, hrest⟩
    | move hm =>
      obtain ⟨hsame, hms⟩ | ⟨x, mid, hms, hown, hrest⟩ := ih
      · exact .inl ⟨hsame, .head hm hms⟩
      · exact .inr ⟨x, mid, .head hm hms, hown, hrest⟩

end Logged

/-! ## Schedules -/

/-- Who takes the next step, and what a session's clock answers in case it is asleep. -/
inductive Turn where
  | owner
  | session (index : Nat) (wake : Wake)

theorem Request.answer?_eq_some {α : Type} {r : Request α} {answer : α} :
    r.answer? = some answer ↔ r = .done answer := by
  cases r <;> simp [answer?]

namespace Logged
variable {α σ : Type}

def follow? (before : Request α × Logged σ) : Turn → Option (Request α × Logged σ)
  | .owner => (before.1.step? before.2.stage).map fun r =>
    (r.1, before.2.add r.2 (before.1.mark? before.2.stage))
  | .session index wake => before.2.stage.jobs[index]?.bind fun j =>
    (j.status.step? j.cancelled wake before.2.stage).map fun r =>
      (before.1, before.2.add
        (r.2.withJobs (before.2.stage.jobs.set index { j with status := r.1 })) j.status.mark?)

theorem step_of_follow? {before after : Request α × Logged σ} {turn : Turn}
    (h : follow? before turn = some after) : Step before after := by
  cases turn with
  | owner =>
    obtain ⟨⟨r, st⟩, hr, rfl⟩ := Option.map_eq_some_iff.mp h
    exact .own ⟨st, hr, rfl⟩
  | session index wake =>
    obtain ⟨j, hj, hnext⟩ := Option.bind_eq_some_iff.mp h
    obtain ⟨⟨status, st⟩, hs, rfl⟩ := Option.map_eq_some_iff.mp hnext
    exact .move (.session hj hs)

theorem steps_of_follow? {turns : List Turn} {before after : Request α × Logged σ}
    (h : turns.foldlM follow? before = some after) : Steps before after := by
  induction turns generalizing before with
  | nil => cases h; exact .refl
  | cons turn turns ih =>
    rw [List.foldlM_cons] at h
    obtain ⟨mid, hmid, hrest⟩ := Option.bind_eq_some_iff.mp h
    exact .head (step_of_follow? hmid) (ih hrest)

theorem Past.follow {start : Stage σ} {x y : Logged σ} (h : Past start x) (c : Command)
    {turns : List Turn} {r : Request c.Answer} {answer : c.Answer}
    (hs : turns.foldlM follow? (c.request, x) = some (r, y)) (hr : r.answer? = some answer) :
    Past start y := by
  rw [Request.answer?_eq_some] at hr
  exact h.call c (hr ▸ steps_of_follow? hs)

end Logged

/-! ## One thread is a way to go

Whatever sessions and owner do by turns, they can do on threads of their own. -/

namespace Stage
variable {σ : Type}

theorem fire_withJobs (st : Stage σ) (jobs : List Job) (payload : String) :
    (st.withJobs jobs).fire payload = (st.fire payload).withJobs jobs := by
  rw [fire_eq, fire_eq]
  rfl

theorem perform_withJobs (st : Stage σ) (jobs : List Job) (e : Effect) :
    (st.withJobs jobs).perform e = (st.perform e).withJobs jobs := by
  cases e with
  | complete session =>
    by_cases h : session ∈ st.callbacks <;> simp [perform, runCallback, withJobs, note, h]
  | signal s =>
    cases s with
    | called call => rfl
    | action hub payload =>
      rw [perform, perform, signal, signal, apply_ite (withJobs · jobs), ← fire_withJobs]
      rfl
  | _ => rfl

theorem step?_withJobs (cancelled : Bool) (wake : Wake) (status : Status) (st : Stage σ)
    (jobs : List Job) : status.step? cancelled wake (st.withJobs jobs) =
      (status.step? cancelled wake st).map fun r => (r.1, r.2.withJobs jobs) := by
  cases status with
  | ready s =>
    cases s with
    | perform e next => simp only [Status.step?, perform_withJobs, Option.map_some]
    | _ => rfl
  | asleep seconds next =>
    simp only [Status.step?]
    split <;> rfl
  | _ => rfl

variable {jobs : List Job} {index : Nat} {j : Job} {a b c : Status × Stage σ}

/-- One session among others, and where it can come to while the others stay where they are. -/
def Comes (jobs : List Job) (index : Nat) (j : Job) (before after : Status × Stage σ) : Prop :=
  ∀ log, ∃ log', Logged.Moves
    ⟨before.2.withJobs (jobs.set index { j with status := before.1 }), log⟩
    ⟨after.2.withJobs (jobs.set index { j with status := after.1 }), log'⟩

theorem Comes.refl (a : Status × Stage σ) : Comes jobs index j a a := fun log => ⟨log, .refl⟩

theorem Comes.trans (h : Comes jobs index j a b) (h' : Comes jobs index j b c) :
    Comes jobs index j a c := by
  intro log
  obtain ⟨mid, hm⟩ := h log
  obtain ⟨last, hm'⟩ := h' mid
  exact ⟨last, hm.trans hm'⟩

theorem comes_of_step? (wake : Wake) (hlt : index < jobs.length)
    (h : a.1.step? j.cancelled wake a.2 = some b) : Comes jobs index j a b := by
  intro log
  have hj : (jobs.set index { j with status := a.1 })[index]? = some { j with status := a.1 } :=
    List.getElem?_set_self hlt
  have hstep := step?_withJobs j.cancelled wake a.1 a.2 (jobs.set index { j with status := a.1 })
  rw [h, Option.map_some] at hstep
  have hmove := Logged.Move.session (x := ⟨a.2.withJobs _, log⟩) hj hstep
  rw [Stage.withJobs, List.set_set] at hmove
  exact ⟨_, .single hmove⟩

/-- A session that is cancelled may wake from any wait. -/
theorem comes_of_cancelled (hlt : index < jobs.length) (h : j.cancelled = true)
    (seconds : Number.Single) (next : Wake → Session) (st : Stage σ) :
    Comes jobs index j (.asleep seconds next, st) (.ready (next .cancelled), st) := by
  refine comes_of_step? .cancelled hlt ?_
  rw [Status.step?, if_neg (by simp [h])]

theorem comes_clock (status : Status) (st : Stage σ) (clock : σ) :
    Comes jobs index j (status, st) (status, { st with clock }) :=
  fun log => ⟨log, .single (.clock _ clock)⟩

variable [TimeBase σ]

theorem Drives.comes (hlt : index < jobs.length) {through fails : Bool} {s : Session}
    {st : Stage σ} {after : Status × Stage σ}
    (h : Drives ⟨j.cancelled, through⟩ s st fails after) :
    Comes jobs index j (.ready s, st) after := by
  have hasked (seconds : Number.Single) (next : Wake → Session) (st : Stage σ) (clock : σ) :
      Comes jobs index j (.ready (.sleep seconds next), st)
        (.asleep seconds next, { st with clock }.note (.asked seconds)) :=
    (comes_of_step? .elapsed hlt rfl).trans
      (comes_clock (.asleep seconds next) (st.note (.asked seconds)) clock)
  induction h with
  | ended => exact comes_of_step? .elapsed hlt rfl
  | crashed => exact comes_of_step? .elapsed hlt rfl
  | perform _ ih => exact (comes_of_step? .elapsed hlt rfl).trans ih
  | resolve _ ih => exact (comes_of_step? .elapsed hlt rfl).trans ih
  | check _ ih => exact (comes_of_step? .elapsed hlt rfl).trans ih
  | yield _ ih => exact (comes_of_step? .elapsed hlt rfl).trans ih
  | yields => exact comes_of_step? .elapsed hlt rfl
  | breathe _ ih => exact (comes_of_step? .elapsed hlt rfl).trans ih
  | breathes => exact comes_of_step? .elapsed hlt rfl
  | elapsed _ _ ih =>
    exact (hasked _ _ _ _).trans ((comes_of_step? .elapsed hlt rfl).trans ih)
  | failed _ _ ih =>
    exact (hasked _ _ _ _).trans ((comes_of_step? (.failed _) hlt rfl).trans ih)
  | cancelled _ hcancelled _ ih =>
    exact (hasked _ _ _ _).trans ((comes_of_cancelled hlt hcancelled _ _ _).trans ih)
  | asleep => exact hasked _ _ _ _

theorem Resumes.comes (hlt : index < jobs.length) {through fails : Bool} {status : Status}
    {st : Stage σ} {after : Status × Stage σ}
    (h : Resumes ⟨j.cancelled, through⟩ status st fails after) :
    Comes jobs index j (status, st) after := by
  cases h with
  | ended => exact .refl _
  | crashed => exact .refl _
  | ready h => exact h.comes hlt
  | cancelled hcancelled h =>
    exact (comes_of_cancelled hlt hcancelled _ _ _).trans (h.comes hlt)
  | elapsed _ _ h =>
    exact (comes_clock _ _ _).trans ((comes_of_step? .elapsed hlt rfl).trans (h.comes hlt))
  | failed _ _ h =>
    exact (comes_clock _ _ _).trans ((comes_of_step? (.failed _) hlt rfl).trans (h.comes hlt))
  | asleep => exact comes_clock _ _ _

theorem moves_turn (st : Stage σ) (log : List Mark) (through : Bool) (index : Nat) :
    ∃ log', Logged.Moves ⟨st, log⟩ ⟨st.turn through index, log'⟩ := by
  cases hj : st.jobs[index]? with
  | none => exact ⟨log, by simpa [turn, hj] using ReflTransGen.refl⟩
  | some j =>
    obtain ⟨hlt, rfl⟩ := List.getElem?_eq_some_iff.mp hj
    obtain ⟨fails, -, hresumes⟩ :=
      exists_resumes ⟨st.jobs[index].cancelled, through⟩ st.jobs[index].status st
    have hcomes := hresumes.comes hlt log
    have hsame : st.withJobs (st.jobs.set index st.jobs[index]) = st :=
      congrArg st.withJobs (List.set_getElem_self hlt)
    rw [turn_eq hj]
    rwa [hsame] at hcomes

theorem Move.moves {w : Surroundings σ} {st st' : Stage σ} (h : st.Move w st') (log : List Mark) :
    ∃ log', Logged.Moves ⟨st, log⟩ ⟨st', log'⟩ := by
  cases h with
  | turn through index => exact moves_turn st log through index
  | clock => exact ⟨log, .single (.clock _ _)⟩
  | registry => exact ⟨log, .single (.registry _ _)⟩

end Stage

theorem Request.Steps.onThreads {α σ : Type} [TimeBase σ] {w : Surroundings σ}
    {before after : Request α × Stage σ} (h : Request.Steps w before after) (log : List Mark) :
    ∃ log', Logged.Steps (before.1, ⟨before.2, log⟩) (after.1, ⟨after.2, log'⟩) := by
  induction h with
  | refl => exact ⟨log, .refl⟩
  | tail _ hstep ih =>
    obtain ⟨mid, hs⟩ := ih
    cases hstep with
    | own h => exact ⟨_, hs.tail (.own ⟨_, h, rfl⟩)⟩
    | move hm =>
      obtain ⟨last, hms⟩ := hm.moves mid
      exact ⟨last, hs.trans (Logged.steps_of_moves hms)⟩

theorem Stage.History.onThreads {σ : Type} [TimeBase σ] {w : Surroundings σ} {start st : Stage σ}
    {calls : List Command} (h : Stage.History w start calls st) :
    ∃ log, Logged.Past start ⟨st, log⟩ := by
  induction h with
  | begin => exact ⟨[], .begin⟩
  | move _ hm ih =>
    obtain ⟨log, hx⟩ := ih
    obtain ⟨log', hms⟩ := hm.moves log
    exact ⟨log', hx.moves hms⟩
  | call _ c hs ih =>
    obtain ⟨log, hx⟩ := ih
    obtain ⟨log', hs'⟩ := hs.onThreads log
    exact ⟨log', hx.call c hs'⟩

end TextReveal
