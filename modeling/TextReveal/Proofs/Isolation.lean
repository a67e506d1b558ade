import TextReveal.Proofs.Echoing
import TextReveal.Proofs.Stable
/-!
Whatever has happened on a stage, a session that is started on it goes as it would on a new one.
-/
namespace TextReveal

/-- The numbers of sessions when there have been `past` before them. They are counted from 1. -/
def numberAfter (past : Nat) : Nat → Nat
  | 0 => 0
  | n + 1 => past + n + 1

theorem numberAfter_injective (past : Nat) : (numberAfter past).Injective := by
  intro m n h
  cases m with
  | zero =>
    cases n with
    | zero => rfl
    | succ n => cases h
  | succ m =>
    cases n with
    | zero => cases h
    | succ n =>
      simp only [numberAfter] at h
      omega

theorem numberAfter_notMem {past : Nat} {stale : List Nat}
    (h : ∀ n ∈ stale, 0 < n ∧ n ≤ past) (n : Nat) : numberAfter past n ∉ stale := by
  intro hmem
  have hbounds := h _ hmem
  cases n <;> simp only [numberAfter] at hbounds <;> omega

namespace Stage
variable {σ : Type}

/-- What never changes on the stage of one player, and that its callbacks belong to sessions that
have been started. -/
structure Belongs (config : Config) (hub : HubRef) (st : Stage σ) : Prop where
  config : st.player.config = config
  listeners : st.listeners = {}
  listenedHub : st.listenedHub = hub
  callbacks : ∀ n ∈ st.callbacks, 0 < n ∧ n ≤ st.started

variable {config : Config} {hub : HubRef} {registry : Registry} {clock : σ}
  {start st before fresh : Stage σ}

theorem belongs_of_new? (hnew : Stage.new? registry clock config hub = some st) :
    st.Belongs config hub := by
  obtain ⟨channel, -, rfl⟩ := Option.map_eq_some_iff.mp hnew
  exact ⟨rfl, rfl, rfl, by simp⟩

namespace Belongs

theorem fire (h : st.Belongs config hub) (payload : String) :
    (st.fire payload).Belongs config hub := by
  rw [fire_eq]
  exact { h with }

theorem perform (h : st.Belongs config hub) (e : Effect) : (st.perform e).Belongs config hub := by
  cases e with
  | frame text => exact { h with }
  | publish event => exact { h with }
  | setState state => exact { h with }
  | complete session =>
    simp only [Stage.perform, Stage.runCallback]
    split
    · exact { h with callbacks := fun n hn => h.callbacks n (List.mem_of_mem_erase hn) }
    · exact h
  | signal s =>
    cases s with
    | called call => exact { h with }
    | action hub' payload =>
      have hnoted : (st.note (.fired hub' payload)).Belongs config hub := { h with }
      simp only [Stage.perform, Stage.signal]
      split
      · exact hnoted.fire payload
      · exact hnoted

theorem launch (h : st.Belongs config hub) (text : String) (speed : Option Number.Single)
    (callback : Bool) : (st.launch text speed callback).2.Belongs config hub := by
  refine { h with callbacks := fun n hn => ?_ }
  show 0 < n ∧ n ≤ st.started + 1
  have hn : n ∈ if callback then st.callbacks ++ [st.started + 1] else st.callbacks := hn
  have hold (hmem : n ∈ st.callbacks) : 0 < n ∧ n ≤ st.started + 1 :=
    ⟨(h.callbacks n hmem).1, Nat.le_succ_of_le (h.callbacks n hmem).2⟩
  split at hn
  · obtain hmem | hmem := List.mem_append.mp hn
    · exact hold hmem
    · obtain rfl := List.mem_singleton.mp hmem
      omega
  · exact hold hn

/-- A stage without sessions is as good as a new one, if it is idle and has no owner's ticket. -/
theorem echoes (h : before.Belongs config hub) (hjobs : before.jobs = [])
    (hnew : Stage.new? before.registry before.clock config hub = some fresh) :
    fresh.Echoes (numberAfter before.started) before.callbacks before.journal.toList
      { before with player := { before.player with state := .idle, active := none } } := by
  obtain ⟨channel, -, rfl⟩ := Option.map_eq_some_iff.mp hnew
  exact {
    injective := numberAfter_injective before.started
    unused := numberAfter_notMem h.callbacks
    registry := rfl
    clock := rfl
    listeners := h.listeners
    listenedHub := h.listenedHub
    config := h.config
    state := rfl
    active := rfl
    started := fun n => by simp [numberAfter]
    jobs := hjobs
    callbacks := (List.append_nil _).symm
    journal := (List.append_nil _).symm }

/-- A session that has just been started, on this stage and on a new one. -/
theorem echoes_launch (h : before.Belongs config hub) (hjobs : before.jobs = [])
    (hnew : Stage.new? before.registry before.clock config hub = some fresh) (text : String)
    (speed : Option Number.Single) (callback : Bool) :
    (fresh.launch text speed callback).2.Echoes (numberAfter before.started) before.callbacks
      before.journal.toList (before.launch text speed callback).2 :=
  -- What the owner held and the state that was left are overwritten.
  ((h.echoes hjobs hnew).launch text speed callback).2

end Belongs

variable [TimeBase σ]

theorem stable_belongs (config : Config) (hub : HubRef) :
    Stable (Belongs config hub : Stage σ → Prop) where
  turn {st} h through index := by
    cases hj : st.jobs[index]? with
    | none => simpa only [turn, hj] using h
    | some j =>
      have hresumed := resume_preserves (R := fun st st' => st.Belongs config hub →
          st'.Belongs config hub) (fun _ h => h) (fun h h' hst => h' (h hst))
        (fun _ e hst => hst.perform e) (fun _ _ _ hst => { hst with }) (fun _ _ hst => { hst with })
        ⟨j.cancelled, through⟩ j.status st h
      rw [turn_eq hj]
      exact { hresumed with }
  clock h _ := { h with }
  registry h _ := { h with }
  letGo h := { h with }
  cancelJob h _ := { h with }
  removeJob h _ := { h with }
  perform h e := h.perform e
  launch h text speed callback := h.launch text speed callback

end Stage

open Stage in
/-- Whatever calls a player has had, and whatever has become of its sessions, a session that is
started on it goes as it would on a new player with its registry, its clock and its configuration.
The same inputs from then on lead to the same frames, events, requests to the clock, actions and
answers, but for the numbers of sessions. At no time are there two sessions. -/
theorem Stage.History.isolates {σ : Type} [TimeBase σ] {w : Surroundings σ} {registry : Registry}
    {clock : σ} {config : Config} {hub : HubRef} {start st begun : Stage σ}
    {calls : List Command} {text : String} {speed : Option Number.Single} {callback : Bool}
    {id : Nat} (hnew : Stage.new? registry clock config hub = some start)
    (h : History w start calls st)
    (hs : Request.Steps w (.start text speed callback, st) (.done id, begun)) :
    (∃ (past : Nat) (stale : List Nat) (earlier : List Entry) (fresh fresh' : Stage σ),
      id = numberAfter past 1 ∧
      begun.journal.toList = earlier ++ [.frame "", .published (.started id)] ∧
      Stage.new? begun.registry begun.clock config hub = some fresh ∧
      (Request.start text speed callback).run? fresh = some (1, fresh') ∧
      ∀ inputs, Option.Rel (Scene.Echoes (numberAfter past) stale earlier)
        (Scene.run? ⟨fresh', none, []⟩ inputs) (Scene.run? ⟨begun, none, []⟩ inputs)) ∧
    ∀ inputs s, Scene.run? ⟨start, none, []⟩ inputs = some s → s.stage.jobs.length ≤ 1 := by
  refine ⟨?_, fun inputs s hrun => ?_⟩
  -- Whatever was there before, the launch finds no session, and sets what else it reads.
  · obtain ⟨empty, hempty, -, hbegun⟩ := h.launched hnew hs
    have hstable : Stable (Belongs config hub : Stage σ → Prop) := stable_belongs config hub
    obtain ⟨before, hbefore, rfl, rfl⟩ :=
      hstable.launched (hstable.history (belongs_of_new? hnew) h) hs
    have hjobs : before.jobs = [] := by
      have hlone := congrArg (·.jobs.length) hbegun
      simpa [jobs_launch, hempty] using hlone
    obtain ⟨fresh, hfresh⟩ : ∃ fresh, Stage.new? before.registry before.clock config hub =
        some fresh := by
      obtain ⟨channel, hchannel, -⟩ := Option.map_eq_some_iff.mp hnew
      exact ⟨_, by rw [Stage.new?, hchannel, Option.map_some]⟩
    have hechoes := hbefore.echoes_launch hjobs hfresh text speed callback
    have hscene : Scene.Echoes (numberAfter before.started) before.callbacks
        before.journal.toList ⟨(fresh.launch text speed callback).2, none, []⟩
        ⟨(before.launch text speed callback).2, none, []⟩ := .idle hechoes []
    refine ⟨before.started, before.callbacks, before.journal.toList, fresh, _, rfl, ?_, hfresh, ?_,
      hscene.run?⟩
    · simp [launch, perform, note, setState, publish]
    · obtain ⟨channel, -, rfl⟩ := Option.map_eq_some_iff.mp hfresh
      rfl
  · exact ((Scene.Follows.idle .begin).run hrun).length_jobs_le hnew

/-- A session that is stopped in a pause, with another speed than it began with, and one after it.
The callback of the first is never run. -/
theorem Stage.History.isolates_of_stop :
    ∃ start st begun : Stage Clock,
      Stage.new? (.withBuiltins .own) { permits := 1 } {} .own = some start ∧
      History (.any Clock) start [.start "[speed=9]a[pause=1]b" none true, .stop] st ∧
      Request.Steps (.any Clock) (.start "c" none true, st) (.done 2, begun) ∧
      begun.callbacks = [1, 2] ∧ begun.journal.size = 10 ∧
      ∃ (stale : List Nat) (earlier : List Entry) (fresh fresh' : Stage Clock),
        earlier.length = 8 ∧
        Stage.new? begun.registry begun.clock {} .own = some fresh ∧
        (Request.start "c" none true).run? fresh = some (1, fresh') ∧
        ∀ inputs, Option.Rel (Scene.Echoes (numberAfter 1) stale earlier)
          (Scene.run? ⟨fresh', none, []⟩ inputs) (Scene.run? ⟨begun, none, []⟩ inputs) := by
  have hrun : ((Stage.new? (.withBuiltins .own) ({ permits := 1 } : Clock) {} .own).bind
      fun start => ((Request.start "[speed=9]a[pause=1]b" none true).run? start).bind fun played =>
        (Request.stop.run? (played.2.turn false 0)).bind fun stopped =>
          ((Request.start "c" none true).run? stopped.2).map fun begun =>
            (begun.1, begun.2.callbacks, begun.2.journal.size)) = some (2, [1, 2], 10) := by
    decide +kernel
  simp only [Option.bind_eq_some_iff, Option.map_eq_some_iff, Prod.mk.injEq] at hrun
  obtain ⟨start, hnew, ⟨first, played⟩, hplayed, ⟨stopped, st⟩, hstopped, ⟨id, begun⟩, hbegun, rfl,
    hcallbacks, hsize⟩ := hrun
  have hhistory : History (.any Clock) start [.start "[speed=9]a[pause=1]b" none true, .stop] st :=
    .call (.move (.call .begin (.start "[speed=9]a[pause=1]b" none true)
      (Request.steps_of_run? _ hplayed)) (.turn false 0 played)) .stop
      (Request.steps_of_run? _ hstopped)
  have hsteps := Request.steps_of_run? (.any Clock) hbegun
  obtain ⟨⟨past, stale, earlier, fresh, fresh', hid, hjournal, hfresh, hlaunched, hscenes⟩, -⟩ :=
    History.isolates hnew hhistory hsteps
  obtain rfl : past = 1 := by
    simp only [numberAfter] at hid
    omega
  have hlength := congrArg List.length hjournal
  refine ⟨start, st, begun, hnew, hhistory, hsteps, hcallbacks, hsize, stale, earlier, fresh,
    fresh', ?_, hfresh, hlaunched, hscenes⟩
  simp only [Array.length_toList, hsize, List.length_append, List.length_cons,
    List.length_nil] at hlength
  omega

end TextReveal
