import Mathlib.Logic.Relation
import TextReveal.Player.Request
import TextReveal.Proofs.Driving
/-!
Sessions and owner on one thread. Sessions take turns in any order, one session from one stop to its
next; the owner's calls go on step by step, and give way only where they wait for a session. In
between, clock and registry may change.
-/
namespace TextReveal
open Relation

/-- What the clock and the registry of a stage may turn into when others have them. -/
structure Surroundings (σ : Type) where
  clock : σ → Prop
  registry : Registry → Prop

namespace Stage
variable {σ : Type} [TimeBase σ]

/-- Gives the session at `index` a turn. -/
def turn (throughYields : Bool) (index : Nat) (st : Stage σ) : Stage σ :=
  match st.jobs[index]? with
  | none => st
  | some j =>
    let (status, st) := resume ⟨j.cancelled, throughYields⟩ j.status st
    { st with jobs := st.jobs.set index { j with status } }

/-- What can happen to a stage that its owner leaves alone. -/
inductive Move (w : Surroundings σ) : Stage σ → Stage σ → Prop
  | turn (throughYields : Bool) (index : Nat) (st : Stage σ) :
    Move w st (st.turn throughYields index)
  | clock {st : Stage σ} {clock : σ} (h : w.clock clock) : Move w st { st with clock }
  | registry {st : Stage σ} {registry : Registry} (h : w.registry registry) :
    Move w st { st with registry }

/-- Any number of moves. -/
abbrev Moves (w : Surroundings σ) : Stage σ → Stage σ → Prop := ReflTransGen (Move w)

/-- How a session has ended, if it has. One that is not there has long been cancelled. -/
def outcome? {σ : Type} (st : Stage σ) (id : Nat) : Option Outcome :=
  match st.job? id with
  | none => some .cancelled
  | some j => j.status.outcome?

theorem removeJob_of_job?_eq_none {σ : Type} {st : Stage σ} {id : Nat} (h : st.job? id = none) :
    st.removeJob id = st := by
  have hall : st.jobs.filter (·.id ≠ id) = st.jobs := by
    rw [List.filter_eq_self]
    intro j hj
    simpa using List.find?_eq_none.mp h j hj
  rw [removeJob, hall]

theorem turn_eq {st : Stage σ} {index : Nat} {j : Job} (h : st.jobs[index]? = some j)
    (through : Bool) :
    st.turn through index =
      { (resume ⟨j.cancelled, through⟩ j.status st).2 with
        jobs := st.jobs.set index
          { j with status := (resume ⟨j.cancelled, through⟩ j.status st).1 } } := by
  simp only [turn, h, (keeps_resume ⟨j.cancelled, through⟩ j.status st).jobs]

theorem turn_lone {st : Stage σ} {j : Job} (h : st.jobs = [j]) (through : Bool) :
    st.turn through 0 =
      { (resume ⟨j.cancelled, through⟩ j.status st).2 with
        jobs := [{ j with status := (resume ⟨j.cancelled, through⟩ j.status st).1 }] } := by
  have hj : st.jobs[0]? = some j := by simp [h]
  rw [turn_eq hj, h]
  rfl

theorem turn_lone_succ {st : Stage σ} {j : Job} (h : st.jobs = [j]) (through : Bool)
    (index : Nat) : st.turn through (index + 1) = st := by
  simp [turn, h]

theorem ids_turn (st : Stage σ) (through : Bool) (index : Nat) :
    (st.turn through index).jobs.map Job.id = st.jobs.map Job.id := by
  cases hj : st.jobs[index]? with
  | none => simp [turn, hj]
  | some j =>
    obtain ⟨hlt, rfl⟩ := List.getElem?_eq_some_iff.mp hj
    rw [turn_eq hj, List.map_set]
    show (st.jobs.map Job.id).set index st.jobs[index].id = _
    have hlt' : index < (st.jobs.map Job.id).length := by simpa using hlt
    rw [← List.getElem_map (h := hlt'), List.set_getElem_self]

theorem ids_moves {w : Surroundings σ} {st st' : Stage σ} (hm : st.Moves w st') :
    st'.jobs.map Job.id = st.jobs.map Job.id := by
  induction hm with
  | refl => rfl
  | tail _ hm ih =>
    cases hm with
    | turn through index => exact (ids_turn _ through index).trans ih
    | clock => exact ih
    | registry => exact ih

theorem active_turn (st : Stage σ) (through : Bool) (index : Nat) :
    (st.turn through index).player.active = st.player.active := by
  cases hj : st.jobs[index]? with
  | none => simp [turn, hj]
  | some j =>
    rw [turn_eq hj]
    exact (keeps_resume _ j.status st).active

theorem active_moves {w : Surroundings σ} {st st' : Stage σ} (hm : st.Moves w st') :
    st'.player.active = st.player.active := by
  induction hm with
  | refl => rfl
  | tail _ hm ih =>
    cases hm with
    | turn through index => exact (active_turn _ through index).trans ih
    | clock => exact ih
    | registry => exact ih

theorem finish?_eq {st : Stage σ} {id : Nat} {j : Job} (h : st.job? id = some j) :
    st.finish? id = (resume ⟨j.cancelled, true⟩ j.status st).1.outcome?.map fun outcome =>
      (outcome, (resume ⟨j.cancelled, true⟩ j.status st).2.removeJob id) := by
  rw [finish?, h]

/-- Waiting for the end of a session is a turn of it, if that ends it. -/
theorem exists_turn_of_finish? {st st' : Stage σ} {id : Nat} {outcome : Outcome}
    (h : st.finish? id = some (outcome, st')) :
    ∃ index, (st.turn true index).outcome? id = some outcome ∧
      (st.turn true index).removeJob id = st' := by
  cases hj : st.job? id with
  | none =>
    rw [finish?, hj] at h
    cases h
    refine ⟨st.jobs.length, ?_⟩
    have hturn : st.turn true st.jobs.length = st := by simp [turn]
    rw [hturn]
    exact ⟨by rw [outcome?, hj], removeJob_of_job?_eq_none hj⟩
  | some j =>
    rw [finish?_eq hj] at h
    obtain ⟨hid, index, hlt, rfl, hfirst⟩ := List.find?_eq_some_iff_getElem.mp hj
    have hid : st.jobs[index].id = id := by simpa using hid
    have hturn := turn_eq (List.getElem?_eq_getElem hlt) true
    have hkeeps := keeps_resume ⟨st.jobs[index].cancelled, true⟩ st.jobs[index].status st
    generalize resume ⟨st.jobs[index].cancelled, true⟩ st.jobs[index].status st = r
      at h hturn hkeeps
    obtain ⟨o, ho, heq⟩ := Option.map_eq_some_iff.mp h
    cases heq
    refine ⟨index, ?_, ?_⟩
    -- The turn leaves the numbers alone, so the session is still the first of its own.
    · have hfind : (st.jobs.set index { st.jobs[index] with status := r.1 }).find? (·.id = id) =
          some { st.jobs[index] with status := r.1 } := by
        rw [List.find?_eq_some_iff_getElem]
        refine ⟨by simpa using hid, index, by simpa using hlt, List.getElem_set_self _, ?_⟩
        intro i hi
        rw [List.getElem_set_ne (by omega)]
        exact hfirst i hi
      rw [hturn, outcome?, job?, hfind]
      exact ho
    · have hset : (st.jobs.set index { st.jobs[index] with status := r.1 }).filter (·.id ≠ id) =
          st.jobs.filter (·.id ≠ id) := by
        have hsplit : st.jobs =
            st.jobs.take index ++ st.jobs[index] :: st.jobs.drop (index + 1) := by
          rw [← List.drop_eq_getElem_cons hlt, List.take_append_drop]
        rw [List.set_eq_take_append_cons_drop, if_pos hlt, List.filter_append,
          List.filter_cons_of_neg (by simpa using hid), congrArg (List.filter _) hsplit,
          List.filter_append, List.filter_cons_of_neg (by simpa using hid)]
      simp only [hturn, removeJob, hset, hkeeps.jobs]

end Stage

namespace Request
variable {α σ : Type}

/-- The next step of a request, unless it is done or waits for a session. -/
def step? : Request α → Stage σ → Option (Request α × Stage σ)
  | .done _, _ => none
  | .readState next, st => some (next st.player.state, st)
  | .take next, st =>
    some (next st.player.active, { st with player := { st.player with active := none } })
  | .cancel next, st =>
    match st.player.active with
    | none => some (next none, st)
    | some session =>
      let st := { st with player := { st.player with active := none } }
      some (next (some session), st.cancelJob session.id)
  | .await session next, st =>
    (st.outcome? session.id).map fun outcome => (next outcome, st.removeJob session.id)
  | .render source tags speed next, st =>
    let (text, st) := st.render source tags (speed.getD st.player.config.defaultSpeed)
    some (next text, st)
  | .launch text speed callback next, st =>
    let (id, st) := st.launch text speed callback
    some (next id, st)
  | .perform effect next, st => some (next, st.perform effect)

variable [TimeBase σ]

/-- A step of a request, or a move of the stage while it waits. -/
inductive Step (w : Surroundings σ) : Request α × Stage σ → Request α × Stage σ → Prop
  | own {request : Request α} {st : Stage σ} {after : Request α × Stage σ}
    (h : request.step? st = some after) : Step w (request, st) after
  | move {session : Ticket} {next : Outcome → Request α} {st st' : Stage σ}
    (h : st.Move w st') : Step w (.await session next, st) (.await session next, st')

abbrev Steps (w : Surroundings σ) : Request α × Stage σ → Request α × Stage σ → Prop :=
  ReflTransGen (Step w)

/-- Carrying a request out, with nothing else going on, is one of its ways to go. -/
theorem steps_of_run? (w : Surroundings σ) {request : Request α} {st st' : Stage σ} {answer : α}
    (h : request.run? st = some (answer, st')) : Steps w (request, st) (.done answer, st') := by
  induction request generalizing st with
  | done result => cases h; exact .refl
  | readState next ih => exact .head (.own rfl) (ih _ h)
  | take next ih => exact .head (.own rfl) (ih _ h)
  | cancel next ih =>
    rw [run?] at h
    cases ha : st.player.active with
    | none =>
      rw [ha] at h
      exact .head (.own (by rw [step?, ha])) (ih _ h)
    | some session =>
      rw [ha] at h
      exact .head (.own (by rw [step?, ha])) (ih _ h)
  | await session next ih =>
    rw [run?] at h
    cases hf : st.finish? session.id with
    | none => simp [hf] at h
    | some r =>
      obtain ⟨outcome, after⟩ := r
      rw [hf] at h
      obtain ⟨index, ho, rfl⟩ := Stage.exists_turn_of_finish? hf
      -- Carrying it out lets no other session go on, so one turn is all that happens meanwhile.
      refine .head (.move (.turn true index st)) (.head (.own ?_) (ih _ h))
      rw [step?, ho, Option.map_some]
  | render source tags speed next ih => exact .head (.own rfl) (ih _ h)
  | launch text speed callback next ih => exact .head (.own rfl) (ih _ h)
  | perform effect next ih => exact .head (.own rfl) (ih h)

/-- What a request comes to, whatever the sessions do while it waits: `waiting` holds wherever it
waits for a session, and `post` of its result. -/
def Ensures (w : Surroundings σ) (waiting : Ticket → Stage σ → Prop) (post : α → Stage σ → Prop) :
    Request α → Stage σ → Prop
  | .done result, st => post result st
  | .readState next, st => (next st.player.state).Ensures w waiting post st
  | .take next, st =>
    (next st.player.active).Ensures w waiting post
      { st with player := { st.player with active := none } }
  | .cancel next, st =>
    match st.player.active with
    | none => (next none).Ensures w waiting post st
    | some session =>
      (next (some session)).Ensures w waiting post
        ({ st with player := { st.player with active := none } }.cancelJob session.id)
  | .await session next, st => ∀ st', st.Moves w st' → waiting session st' ∧
    ∀ outcome, st'.outcome? session.id = some outcome →
      (next outcome).Ensures w waiting post (st'.removeJob session.id)
  | .render source tags speed next, st =>
    let r := st.render source tags (speed.getD st.player.config.defaultSpeed)
    (next r.1).Ensures w waiting post r.2
  | .launch text speed callback next, st =>
    let r := st.launch text speed callback
    (next r.1).Ensures w waiting post r.2
  | .perform effect next, st => next.Ensures w waiting post (st.perform effect)

variable {w : Surroundings σ} {waiting : Ticket → Stage σ → Prop} {post : α → Stage σ → Prop}

theorem Ensures.step {before after : Request α × Stage σ}
    (h : before.1.Ensures w waiting post before.2) (hs : Step w before after) :
    after.1.Ensures w waiting post after.2 := by
  cases hs with
  | @move session next st st' hm =>
    intro st'' hms
    exact h st'' (.head hm hms)
  | @own request st _ hs =>
    cases request with
    | done => cases hs
    | readState next => cases hs; exact h
    | take next => cases hs; exact h
    | cancel next =>
      simp only [step?] at hs
      simp only [Ensures] at h
      cases ha : st.player.active with
      | none =>
        simp only [ha] at hs h
        cases hs
        exact h
      | some session =>
        simp only [ha] at hs h
        cases hs
        exact h
    | await session next =>
      obtain ⟨outcome, ho, rfl⟩ := Option.map_eq_some_iff.mp hs
      exact (h st .refl).2 outcome ho
    | render => cases hs; exact h
    | launch => cases hs; exact h
    | perform => cases hs; exact h

theorem Ensures.steps {before after : Request α × Stage σ}
    (h : before.1.Ensures w waiting post before.2) (hs : Steps w before after) :
    after.1.Ensures w waiting post after.2 := by
  induction hs with
  | refl => exact h
  | tail _ hstep ih => exact ih.step hstep

theorem Ensures.mono {post' : α → Stage σ → Prop} {request : Request α} {st : Stage σ}
    (h : request.Ensures w waiting post st)
    (hpost : ∀ answer st', post answer st' → post' answer st') :
    request.Ensures w waiting post' st := by
  induction request generalizing st with
  | done result => exact hpost _ _ h
  | readState next ih => exact ih _ h
  | take next ih => exact ih _ h
  | cancel next ih =>
    simp only [Ensures] at h ⊢
    split at h <;> exact ih _ h
  | await session next ih =>
    intro st' hm
    obtain ⟨hwaits, hnext⟩ := h st' hm
    exact ⟨hwaits, fun outcome houtcome => ih outcome (hnext outcome houtcome)⟩
  | render _ _ _ next ih => exact ih _ h
  | launch _ _ _ next ih => exact ih _ h
  | perform _ next ih => exact ih h

/-- A request can be carried out where one turn ends whatever it waits for. -/
theorem Ensures.exists_steps {request : Request α} {st : Stage σ}
    (h : request.Ensures w waiting post st)
    (hturn : ∀ session st', waiting session st' →
      ∃ through index outcome, (st'.turn through index).outcome? session.id = some outcome) :
    ∃ answer st', Steps w (request, st) (.done answer, st') := by
  induction request generalizing st with
  | done result => exact ⟨result, st, .refl⟩
  | readState next ih =>
    obtain ⟨answer, st', hs⟩ := ih _ h
    exact ⟨answer, st', .head (.own rfl) hs⟩
  | take next ih =>
    obtain ⟨answer, st', hs⟩ := ih _ h
    exact ⟨answer, st', .head (.own rfl) hs⟩
  | cancel next ih =>
    simp only [Ensures] at h
    split at h <;> rename_i ha <;> obtain ⟨answer, st', hs⟩ := ih _ h
    · exact ⟨answer, st', .head (.own (by rw [step?, ha])) hs⟩
    · exact ⟨answer, st', .head (.own (by rw [step?, ha])) hs⟩
  | await session next ih =>
    -- Nothing but this can hold a request up, and one turn is enough to get it going.
    obtain ⟨through, index, outcome, ho⟩ := hturn session st (h st .refl).1
    obtain ⟨answer, st', hs⟩ := ih outcome ((h _ (.single (.turn through index st))).2 outcome ho)
    refine ⟨answer, st', .head (.move (.turn through index st)) (.head (.own ?_) hs)⟩
    rw [step?, ho, Option.map_some]
  | render _ _ _ next ih =>
    obtain ⟨answer, st', hs⟩ := ih _ h
    exact ⟨answer, st', .head (.own rfl) hs⟩
  | launch _ _ _ next ih =>
    obtain ⟨answer, st', hs⟩ := ih _ h
    exact ⟨answer, st', .head (.own rfl) hs⟩
  | perform _ next ih =>
    obtain ⟨answer, st', hs⟩ := ih h
    exact ⟨answer, st', .head (.own rfl) hs⟩

theorem ensures_performAll {next : Request α} {st : Stage σ} (effects : List Effect)
    (h : next.Ensures w waiting post (effects.foldl Stage.perform st)) :
    (performAll effects next).Ensures w waiting post st := by
  induction effects generalizing st with
  | nil => exact h
  | cons e effects ih => exact ih h

end Request

/-- The calls of an owner. -/
inductive Command where
  | start (text : String) (speed : Option Number.Single) (callback : Bool)
  | skip
  | stop
  | setInstant (text : String)
  | join
  deriving DecidableEq, Repr

namespace Command

def Answer : Command → Type
  | start .. => Nat
  | skip | stop => Bool
  | setInstant _ => Unit
  | join => Option Outcome

def request : (c : Command) → Request c.Answer
  | start text speed callback => Request.start text speed callback
  | skip => Request.skip
  | stop => Request.stop
  | setInstant text => Request.setInstant text
  | join => Request.join

/-- The calls that cancel the active session for good. -/
def cancels : Command → Bool
  | start .. | stop | setInstant _ => true
  | skip | join => false

/-- What such a call does when no session is left. -/
def afterwards {σ : Type} : Command → Stage σ → Stage σ
  | start text speed callback, st => (st.launch text speed callback).2
  | setInstant text, st =>
    let r := st.render text (Tag.lex text) st.player.config.defaultSpeed
    (r.2.perform (.frame r.1)).perform (.setState .completed)
  | stop, st | skip, st | join, st => st

theorem keeps_setInstant {σ : Type} (st : Stage σ) (text : String) :
    st.Keeps ((setInstant text).afterwards st) := by
  have hrendered := Stage.keeps_render st text (Tag.lex text) st.player.config.defaultSpeed
  exact (hrendered.trans (Stage.keeps_perform _ (.frame _))).trans
    (Stage.keeps_perform _ (.setState .completed))

theorem ensures_of_cancels {σ : Type} [TimeBase σ] {w : Surroundings σ}
    {waiting : Ticket → Stage σ → Prop} {c : Command} {post : c.Answer → Stage σ → Prop}
    {st : Stage σ} (hc : c.cancels)
    (h : ∀ next : Bool → Request c.Answer,
      (∀ stopped st', (∀ answer, post answer (c.afterwards st')) →
        (next stopped).Ensures w waiting post st') →
      (Request.halt next).Ensures w waiting post st) :
    c.request.Ensures w waiting post st := by
  cases c with
  | start text speed callback =>
    exact h (fun _ => .launch text speed callback .done) fun _ _ hpost => hpost _
  | stop => exact h .done fun _ _ hpost => hpost _
  | setInstant text =>
    exact h (fun _ => .render text (Tag.lex text) none fun shown =>
      .performAll [.frame shown, .setState .completed] (.done ())) fun _ _ hpost => hpost _
  | skip => cases hc
  | join => cases hc

end Command

namespace Stage
variable {σ : Type} [TimeBase σ]

/-- What a stage can have become after calls that were each driven to their end. -/
inductive History (w : Surroundings σ) (start : Stage σ) : List Command → Stage σ → Prop
  | begin : History w start [] start
  | move {calls : List Command} {st st' : Stage σ} (h : History w start calls st)
    (hm : st.Move w st') : History w start calls st'
  | call {calls : List Command} {st st' : Stage σ} (h : History w start calls st) (c : Command)
    {answer : c.Answer} (hs : Request.Steps w (c.request, st) (.done answer, st')) :
    History w start (calls ++ [c]) st'

/-- What others can see of a stage after some calls: the next call may wait for a session. -/
def Seen (w : Surroundings σ) (start : Stage σ) (calls : List Command) (st : Stage σ) : Prop :=
  History w start calls st ∨
    ∃ (before : Stage σ) (c : Command) (session : Ticket) (next : Outcome → Request c.Answer),
      History w start calls before ∧ Request.Steps w (c.request, before) (.await session next, st)

end Stage
end TextReveal
