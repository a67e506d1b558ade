import Mathlib.Data.List.Basic
import TextReveal.Proofs.Renumbering
import TextReveal.Proofs.Scenes
/-!
A used stage that does what a fresh one does, but for the numbers of sessions.
-/
namespace TextReveal

namespace Stage
variable {σ : Type}

/-- What the same inputs keep up between a fresh stage and one with a past, if `f` turns the numbers
of sessions on the one into those on the other. All that is left of the past are entries in the
journal, and callbacks of sessions that are over. -/
structure Echoes (f : Nat → Nat) (stale : List Nat) (earlier : List Entry)
    (fresh st : Stage σ) : Prop where
  injective : f.Injective
  unused (session : Nat) : f session ∉ stale
  registry : st.registry = fresh.registry
  clock : st.clock = fresh.clock
  listeners : st.listeners = fresh.listeners
  listenedHub : st.listenedHub = fresh.listenedHub
  config : st.player.config = fresh.player.config
  state : st.player.state = fresh.player.state
  active : st.player.active = fresh.player.active.map (Ticket.renumber f)
  started : ∀ n, st.started + n + 1 = f (fresh.started + n + 1)
  jobs : st.jobs = fresh.jobs.map (Job.renumber f)
  callbacks : st.callbacks = stale ++ fresh.callbacks.map f
  journal : st.journal.toList = earlier ++ fresh.journal.toList.map (Entry.renumber f)

variable {f : Nat → Nat} {stale : List Nat} {earlier : List Entry} {fresh st : Stage σ}

namespace Echoes

theorem note (h : Echoes f stale earlier fresh st) (entry : Entry) :
    Echoes f stale earlier (fresh.note entry) (st.note (entry.renumber f)) := by
  refine { h with journal := ?_ }
  simp [Stage.note, h.journal]

theorem setClock (h : Echoes f stale earlier fresh st) (clock : σ) :
    Echoes f stale earlier { fresh with clock } { st with clock } :=
  { h with clock := rfl }

theorem setState (h : Echoes f stale earlier fresh st) (state : State) :
    Echoes f stale earlier (fresh.setState state) (st.setState state) :=
  { h with state := rfl }

theorem fire (h : Echoes f stale earlier fresh st) (payload : String) :
    Echoes f stale earlier (fresh.fire payload) (st.fire payload) := by
  simp only [Stage.fire, h.listeners]
  generalize fresh.listeners.ids = ids
  induction ids generalizing fresh st with
  | nil => exact h
  | cons id ids ih => exact ih (h.note (.heard id payload))

theorem signal (h : Echoes f stale earlier fresh st) (s : Signal) :
    Echoes f stale earlier (fresh.signal s) (st.signal s) := by
  cases s with
  | called call => exact h.note (.called call)
  | action hub payload =>
    show Echoes f stale earlier (if hub = fresh.listenedHub then _ else _)
      (if hub = st.listenedHub then _ else _)
    rw [h.listenedHub]
    split
    · exact (h.note (.fired hub payload)).fire payload
    · exact h.note (.fired hub payload)

theorem publish (h : Echoes f stale earlier fresh st) (event : Event) :
    Echoes f stale earlier (fresh.publish event) (st.publish (event.renumber f)) :=
  { h.note (.published event) with }

theorem runCallback (h : Echoes f stale earlier fresh st) (session : Nat) :
    Echoes f stale earlier (fresh.runCallback session) (st.runCallback (f session)) := by
  have hmem : f session ∈ st.callbacks ↔ session ∈ fresh.callbacks := by
    rw [h.callbacks, List.mem_append, List.mem_map_of_injective h.injective]
    exact or_iff_right (h.unused session)
  unfold Stage.runCallback
  by_cases hsession : session ∈ fresh.callbacks
  · rw [if_pos hsession, if_pos (hmem.mpr hsession)]
    refine { h.note (.completed session) with callbacks := ?_ }
    show st.callbacks.erase (f session) = stale ++ (fresh.callbacks.erase session).map f
    rw [h.callbacks, List.erase_append_right _ (h.unused session), List.map_erase h.injective]
  · rw [if_neg hsession, if_neg (hmem.not.mpr hsession)]
    exact h

theorem perform (h : Echoes f stale earlier fresh st) (e : Effect) :
    Echoes f stale earlier (fresh.perform e) (st.perform (e.renumber f)) := by
  cases e with
  | frame text => exact h.note (.frame text)
  | publish event => exact h.publish event
  | setState state => exact h.setState state
  | complete session => exact h.runCallback session
  | signal s => exact h.signal s

theorem cancelJob (h : Echoes f stale earlier fresh st) (id : Nat) :
    Echoes f stale earlier (fresh.cancelJob id) (st.cancelJob (f id)) := by
  refine { h with jobs := ?_ }
  simp only [Stage.cancelJob, h.jobs, List.map_map]
  refine List.map_congr_left fun j _ => ?_
  simp only [Function.comp_apply, Job.renumber, h.injective.eq_iff]
  split <;> rfl

theorem removeJob (h : Echoes f stale earlier fresh st) (id : Nat) :
    Echoes f stale earlier (fresh.removeJob id) (st.removeJob (f id)) := by
  refine { h with jobs := ?_ }
  simp only [Stage.removeJob, h.jobs, List.filter_map]
  congr 1
  refine List.filter_congr fun j _ => ?_
  simp [Job.renumber, h.injective.eq_iff]

theorem outcome? (h : Echoes f stale earlier fresh st) (id : Nat) :
    st.outcome? (f id) = fresh.outcome? id := by
  have hfind : st.job? (f id) = (fresh.job? id).map (Job.renumber f) := by
    simp only [Stage.job?, h.jobs, List.find?_map]
    congr 2
    funext j
    simp [Job.renumber, h.injective.eq_iff]
  rw [Stage.outcome?, Stage.outcome?, hfind]
  cases fresh.job? id with
  | none => rfl
  | some j => exact j.status.outcome?_renumber f

theorem render (h : Echoes f stale earlier fresh st) (source : String) (tags : List Tag)
    (speed : Number.Single) :
    (st.render source tags speed).1 = (fresh.render source tags speed).1 ∧
      Echoes f stale earlier (fresh.render source tags speed).2
        (st.render source tags speed).2 := by
  unfold Stage.render
  rw [h.registry, h.config]
  refine ⟨rfl, ?_⟩
  dsimp only
  generalize (renderInstant fresh.registry fresh.player.config.unknownTags source tags
    speed).signals = list
  induction list generalizing fresh st with
  | nil => exact h
  | cons s list ih => exact ih (h.signal s)

theorem launch (h : Echoes f stale earlier fresh st) (text : String)
    (speed : Option Number.Single) (callback : Bool) :
    (st.launch text speed callback).1 = f (fresh.launch text speed callback).1 ∧
      Echoes f stale earlier (fresh.launch text speed callback).2
        (st.launch text speed callback).2 := by
  have hid : st.started + 1 = f (fresh.started + 1) := h.started 0
  have hopened : Echoes f stale earlier
      (((fresh.perform (.frame "")).setState .typing).publish (.started (fresh.started + 1)))
      (((st.perform (.frame "")).setState .typing).publish (.started (st.started + 1))) := by
    rw [hid]
    exact ((h.note (.frame "")).setState .typing).publish (.started (fresh.started + 1))
  refine ⟨hid, { hopened with active := ?_, started := ?_, jobs := ?_, callbacks := ?_ }⟩
  · show some (Ticket.mk (st.started + 1) text (Tag.lex text) _) = _
    rw [hid, h.config]
    rfl
  · intro n
    have hlater := h.started (n + 1)
    show st.started + 1 + n + 1 = f (fresh.started + 1 + n + 1)
    rw [show fresh.started + 1 + n + 1 = fresh.started + (n + 1) + 1 by omega, ← hlater]
    omega
  · rw [jobs_launch, jobs_launch, h.jobs, List.map_append, opening, opening, hid, h.config,
      ← Session.renumber_start]
    rfl
  · show (if callback then st.callbacks ++ [st.started + 1] else st.callbacks) =
      stale ++ (if callback then fresh.callbacks ++ [fresh.started + 1] else fresh.callbacks).map f
    rw [hid, h.callbacks]
    split <;> simp

variable [TimeBase σ]

theorem drive (h : Echoes f stale earlier fresh st) (pace : Pace) (s : Session) (share : Nat) :
    (Stage.drive pace (s.renumber f) share st).1 =
        (Stage.drive pace s share fresh).1.renumber f ∧
      Echoes f stale earlier (Stage.drive pace s share fresh).2
        (Stage.drive pace (s.renumber f) share st).2 := by
  induction s generalizing share fresh st with
  | ended outcome => exact ⟨rfl, h⟩
  | crashed => exact ⟨rfl, h⟩
  | perform e next ih => exact ih (h.perform e) share
  | resolve name next ih =>
    simp only [Session.renumber, Stage.drive, h.registry]
    exact ih _ h share
  | check next ih => exact ih _ h share
  | yield next ih =>
    simp only [Session.renumber, Stage.drive]
    split
    · exact ih h _
    · exact ⟨rfl, h⟩
  | breathe next ih =>
    simp only [Session.renumber, Stage.drive]
    split
    · exact ih h _
    · split
      · exact ih h _
      · exact ⟨rfl, h⟩
  | sleep seconds next ih =>
    have hasked := (h.setClock (TimeBase.request fresh.clock seconds).2).note (.asked seconds)
    simp only [Session.renumber, Stage.drive, h.clock]
    split
    · exact ih _ hasked _
    · exact ih _ hasked _
    · split
      · exact ih _ hasked _
      · exact ⟨rfl, hasked⟩

theorem resume (h : Echoes f stale earlier fresh st) (pace : Pace) (status : Status) :
    (Stage.resume pace (status.renumber f) st).1 =
        (Stage.resume pace status fresh).1.renumber f ∧
      Echoes f stale earlier (Stage.resume pace status fresh).2
        (Stage.resume pace (status.renumber f) st).2 := by
  cases status with
  | ready s => exact h.drive pace s _
  | ended outcome => exact ⟨rfl, h⟩
  | crashed => exact ⟨rfl, h⟩
  | asleep seconds next =>
    have hagain := h.setClock (TimeBase.again fresh.clock seconds).2
    simp only [Status.renumber, Stage.resume, h.clock]
    split
    · exact h.drive pace _ _
    · split
      · exact hagain.drive pace _ _
      · exact hagain.drive pace _ _
      · exact ⟨rfl, hagain⟩

theorem turn (h : Echoes f stale earlier fresh st) (through : Bool) (index : Nat) :
    Echoes f stale earlier (fresh.turn through index) (st.turn through index) := by
  have hget : st.jobs[index]? = fresh.jobs[index]?.map (Job.renumber f) := by
    rw [h.jobs, List.getElem?_map]
  cases hj : fresh.jobs[index]? with
  | none =>
    rw [hj, Option.map_none] at hget
    simpa only [Stage.turn, hj, hget] using h
  | some j =>
    rw [hj, Option.map_some] at hget
    obtain ⟨hstatus, hresumed⟩ := h.resume ⟨j.cancelled, through⟩ j.status
    rw [turn_eq hj, turn_eq hget]
    refine { hresumed with jobs := ?_ }
    show st.jobs.set index _ = (fresh.jobs.set index _).map (Job.renumber f)
    rw [h.jobs, List.map_set]
    congr 1
    exact congrArg (Job.mk (f j.id) · j.cancelled) hstatus

end Echoes
end Stage

namespace Request
variable {α σ : Type} {f : Nat → Nat} {g : α → α} {stale : List Nat} {earlier : List Entry}

theorem Matches.isWaiting {request request' : Request α} (h : Matches f g request request') :
    request'.isWaiting = request.isWaiting := by
  cases h <;> rfl

theorem Matches.answer? {request request' : Request α} (h : Matches f g request request') :
    request'.answer? = request.answer?.map g := by
  cases h <;> rfl

/-- Requests that match take their steps together. -/
theorem Matches.step? {request request' : Request α} (hrequest : Matches f g request request')
    {fresh st : Stage σ} (h : fresh.Echoes f stale earlier st) :
    Option.Rel (fun after after' => Matches f g after.1 after'.1 ∧
      after.2.Echoes f stale earlier after'.2) (request.step? fresh) (request'.step? st) := by
  have hletGo : Stage.Echoes f stale earlier
      { fresh with player := { fresh.player with active := none } }
      { st with player := { st.player with active := none } } := { h with active := rfl }
  -- All that a request reads is the same on both stages, up to numbers of sessions.
  cases hrequest with
  | done result => exact .none
  | readState hnext =>
    simp only [Request.step?, h.state]
    exact .some ⟨hnext _, h⟩
  | take hnext =>
    simp only [Request.step?, h.active]
    exact .some ⟨hnext _, hletGo⟩
  | cancel hnext =>
    have hactive := h.active
    simp only [Request.step?]
    cases ha : fresh.player.active with
    | none =>
      rw [ha] at hactive
      simp only [hactive]
      exact .some ⟨hnext none, h⟩
    | some session =>
      rw [ha] at hactive
      simp only [hactive]
      exact .some ⟨hnext (some session), hletGo.cancelJob session.id⟩
  | await session hnext =>
    simp only [Request.step?, Ticket.renumber, h.outcome? session.id]
    cases fresh.outcome? session.id with
    | none => exact .none
    | some outcome => exact .some ⟨hnext outcome, h.removeJob session.id⟩
  | render source tags speed hnext =>
    obtain ⟨htext, hrendered⟩ := h.render source tags (speed.getD fresh.player.config.defaultSpeed)
    simp only [Request.step?, h.config, htext]
    exact .some ⟨hnext _, hrendered⟩
  | launch text speed callback hnext =>
    obtain ⟨hid, hlaunched⟩ := h.launch text speed callback
    simp only [Request.step?, hid]
    exact .some ⟨hnext _, hlaunched⟩
  | perform effect hnext => exact .some ⟨hnext, h.perform effect⟩

end Request

namespace Scene
variable {σ : Type} {f : Nat → Nat} {stale : List Nat} {earlier : List Entry}

/-- Scenes on stages that echo each other, with the same calls and, but for the numbers of
sessions, the same answers. -/
inductive Echoes (f : Nat → Nat) (stale : List Nat) (earlier : List Entry) :
    Scene σ → Scene σ → Prop
  | idle {fresh st : Stage σ} (h : fresh.Echoes f stale earlier st)
    (answers : List ((c : Command) × c.Answer)) :
    Echoes f stale earlier ⟨fresh, none, answers⟩
      ⟨st, none, answers.map fun ⟨c, answer⟩ => ⟨c, c.renumber f answer⟩⟩
  | busy {fresh st : Stage σ} (h : fresh.Echoes f stale earlier st) {c : Command}
    {request request' : Request c.Answer} (hrequest : request.Matches f (c.renumber f) request')
    (answers : List ((c : Command) × c.Answer)) :
    Echoes f stale earlier ⟨fresh, some ⟨c, request⟩, answers⟩
      ⟨st, some ⟨c, request'⟩, answers.map fun ⟨c, answer⟩ => ⟨c, c.renumber f answer⟩⟩

variable [TimeBase σ] {fresh s : Scene σ}

theorem echoes_apply {stage st : Stage σ} (h : stage.Echoes f stale earlier st)
    (change : Change σ) : (change.apply stage).Echoes f stale earlier (change.apply st) := by
  cases change with
  | turn through index => exact h.turn through index
  | clock clock => exact h.setClock clock
  | registry registry => exact { h with registry := rfl }

/-- What comes of an input is the same on both stages. -/
theorem Echoes.next? (h : Echoes f stale earlier fresh s) (input : Input σ) :
    Option.Rel (Echoes f stale earlier) (fresh.next? input) (s.next? input) := by
  cases h with
  | idle h answers =>
    cases input with
    | change change => exact .some (.idle (echoes_apply h change) answers)
    | call c => exact .some (.busy h (Request.matches_request c) answers)
    | proceed => exact .none
  | @busy stage st h c request request' hrequest answers =>
    cases input with
    | change change =>
      show Option.Rel _ (if request.isWaiting then _ else none)
        (if request'.isWaiting then _ else none)
      rw [hrequest.isWaiting]
      split
      · exact .some (.busy (echoes_apply h change) hrequest answers)
      · exact .none
    | call c => exact .none
    | proceed =>
      simp only [Scene.next?, hrequest.answer?]
      cases request.answer? with
      | some answer =>
        have hidle := Echoes.idle h (answers ++ [⟨c, answer⟩])
        rw [List.map_append] at hidle
        exact .some hidle
      | none =>
        have hstep := hrequest.step? h
        generalize request.step? stage = after, request'.step? st = after' at hstep
        cases hstep with
        | none => exact .none
        | some hafter => exact .some (.busy hafter.2 hafter.1 answers)

theorem Echoes.run? (h : Echoes f stale earlier fresh s) (inputs : List (Input σ)) :
    Option.Rel (Echoes f stale earlier) (fresh.run? inputs) (s.run? inputs) := by
  induction inputs generalizing fresh s with
  | nil => exact .some h
  | cons input inputs ih =>
    have hnext := h.next? input
    simp only [Scene.run?, List.foldlM_cons]
    generalize fresh.next? input = after, s.next? input = after' at hnext
    cases hnext with
    | none => exact .none
    | some hafter => exact ih hafter

end Scene
end TextReveal
