import TextReveal.Proofs.Solo
import TextReveal.Proofs.Telling
/-!
Players that type without a session. Every call that takes a session away tells how it has ended,
except a wait for a session that breaks down.
-/
namespace TextReveal

namespace Stage
variable {σ : Type}

/-- The session of a ticket alone on a stage, with a player that tells of it. -/
structure Attends (t : Ticket) (status : Status) (cancelled : Bool) (st : Stage σ) : Prop where
  jobs : st.jobs = [⟨t.id, status, cancelled⟩]
  tells : status.Tells cancelled st.player.state

/-- A stage when no call is under way. -/
inductive Told (st : Stage σ) : Prop
  | rests (hjobs : st.jobs = []) (hactive : st.player.active = none)
  | plays {t : Ticket} {status : Status} (h : Attends t status false st)
    (hactive : st.player.active = some t)

variable {st st' : Stage σ} {t : Ticket} {status : Status} {cancelled : Bool}

theorem Attends.removeJob (h : Attends t status cancelled st) : (st.removeJob t.id).jobs = [] := by
  simp [Stage.removeJob, h.jobs]

theorem Attends.cancel (h : Attends t status false st) (htyping : st.player.state = .typing) :
    Attends t status true ({ st with
      player := { st.player with active := none } }.cancelJob t.id) where
  jobs := by simp [cancelJob, h.jobs]
  tells := by
    have htells := h.tells
    rw [htyping] at htells
    show status.Tells true st.player.state
    rw [htyping]
    exact htells.cancel

theorem told_of_new? {registry : Registry} {clock : σ} {config : Config} {hub : HubRef}
    (h : Stage.new? registry clock config hub = some st) : Told st := by
  obtain ⟨channel, -, rfl⟩ := Option.map_eq_some_iff.mp h
  exact .rests rfl rfl

theorem attends_launch (hjobs : st.jobs = []) (text : String) (speed : Option Number.Single)
    (callback : Bool) :
    Attends ⟨st.started + 1, text, Tag.lex text, speed.getD st.player.config.defaultSpeed⟩
      (st.opening text speed) false (st.launch text speed callback).2 where
  jobs := by rw [jobs_launch, hjobs, List.nil_append]
  tells := ⟨rfl, fun _ => Session.tells_start ..⟩

theorem told_launch (hjobs : st.jobs = []) (text : String) (speed : Option Number.Single)
    (callback : Bool) : Told (st.launch text speed callback).2 :=
  .plays (attends_launch hjobs text speed callback) rfl

variable [TimeBase σ] {w : Surroundings σ}

theorem Attends.turn (h : Attends t status cancelled st) (through : Bool) (index : Nat) :
    ∃ status', Attends t status' cancelled (st.turn through index) := by
  cases index with
  | succ index =>
    rw [turn_lone_succ h.jobs]
    exact ⟨status, h⟩
  | zero =>
    rw [turn_lone h.jobs]
    obtain ⟨fails, -, hresumes⟩ := exists_resumes ⟨cancelled, through⟩ status st
    exact ⟨_, rfl, hresumes.tells h.tells⟩

theorem Attends.moves (h : Attends t status cancelled st) (hm : st.Moves w st') :
    ∃ status', Attends t status' cancelled st' := by
  induction hm with
  | refl => exact ⟨status, h⟩
  | tail _ hm ih =>
    obtain ⟨status', h'⟩ := ih
    cases hm with
    | clock => exact ⟨status', { h' with }⟩
    | registry => exact ⟨status', { h' with }⟩
    | turn through index => exact h'.turn through index

theorem Told.move (h : Told st) (hm : st.Move w st') : Told st' := by
  have hactive' := active_moves (.single hm)
  cases h with
  | rests hjobs hactive =>
    have hids := ids_moves (.single hm)
    rw [hjobs] at hids
    exact .rests (List.map_eq_nil_iff.mp hids) (hactive'.trans hactive)
  | plays h hactive =>
    obtain ⟨status', h'⟩ := h.moves (.single hm)
    exact .plays h' (hactive'.trans hactive)

/-- The active session, left alone, breaks down, and is waited for. -/
def BreaksDown (w : Surroundings σ) (st st' : Stage σ) : Prop :=
  ∃ t mid, st.player.active = some t ∧
    { st with player := { st.player with active := none } }.Moves w mid ∧
    mid.jobs = [⟨t.id, .crashed, false⟩] ∧ st' = mid.removeJob t.id

/-- A session that has been waited for leaves its player typing exactly if it has broken down. -/
theorem Attends.typing_iff {mid : Stage σ} {status' : Status} {outcome : Outcome}
    (h : Attends t status false st) (hactive : st.player.active = some t)
    (hm : { st with player := { st.player with active := none } }.Moves w mid)
    (h' : Attends t status' false mid) (ho : status'.outcome? = some outcome) :
    mid.player.state = .typing ↔ BreaksDown w st (mid.removeJob t.id) := by
  constructor
  · intro htyping
    cases outcome with
    | completed =>
      rw [h'.tells.of_completed ho] at htyping
      cases htyping
    | cancelled =>
      rcases h'.tells.of_cancelled ho with hstate | rfl
      · rw [hstate] at htyping
        cases htyping
      · exact ⟨t, mid, hactive, hm, h'.jobs, rfl⟩
  · rintro ⟨t', mid', hactive', hm', hcrashed, hsame⟩
    obtain rfl : t = t' := Option.some.inj (hactive.symm.trans hactive')
    have htaken : Attends t status false { st with player := { st.player with active := none } } :=
      { h with }
    obtain ⟨status'', h''⟩ := htaken.moves hm'
    have htells := h''.tells
    rw [h''.jobs, List.singleton_inj, Job.mk.injEq] at hcrashed
    rw [hcrashed.2.1] at htells
    have hstate : mid.player.state = mid'.player.state :=
      congrArg (·.player.state) hsame
    exact hstate.trans htells

/-- Why a player may type behind a call when it has no session. -/
def TypesOn (w : Surroundings σ) (c : Command) (st st' : Stage σ) : Prop :=
  c = .join ∧ BreaksDown w st st' ∨
    c ∈ [.skip, .stop, .join] ∧ st.player.active = none ∧ st.player.state = .typing

/-- What a call comes to. -/
structure Settles (w : Surroundings σ) (c : Command) (st st' : Stage σ) : Prop where
  told : Told st'
  typing : st'.player.active = none → (st'.player.state = .typing ↔ TypesOn w c st st')

end Stage

namespace Request
variable {α σ : Type} [TimeBase σ] {w : Surroundings σ} {post : α → Stage σ → Prop} {st : Stage σ}
  {t : Ticket} {status : Status} {cancelled : Bool}
open Stage

theorem ensures_await_attends {next : Outcome → Request α} (h : Attends t status cancelled st)
    (hactive : st.player.active = none)
    (hnext : ∀ mid status' outcome, st.Moves w mid → Attends t status' cancelled mid →
      (mid.removeJob t.id).player.active = none → status'.outcome? = some outcome →
        (next outcome).Ensures w (fun _ _ => True) post (mid.removeJob t.id)) :
    (await t next).Ensures w (fun _ _ => True) post st := by
  intro mid hm
  obtain ⟨status', h'⟩ := h.moves hm
  refine ⟨trivial, fun outcome houtcome => ?_⟩
  refine hnext mid status' outcome hm h' ((active_moves hm).trans hactive) ?_
  simpa [outcome?, job?, h'.jobs] using houtcome

/-- A halt leaves a player typing only where it had no session to halt. -/
theorem ensures_halt_told {next : Bool → Request α} (h : Told st)
    (hnext : ∀ stopped st', st'.jobs = [] → st'.player.active = none →
      (st'.player.state = .typing ↔ st.player.active = none ∧ st.player.state = .typing) →
        (next stopped).Ensures w (fun _ _ => True) post st') :
    (halt next).Ensures w (fun _ _ => True) post st := by
  cases h with
  | rests hjobs hactive =>
    simp only [halt, Ensures, hactive]
    exact hnext false st hjobs hactive (by simp [hactive])
  | @plays t status h hactive =>
    simp only [halt, Ensures, hactive]
    by_cases htyping : st.player.state = .typing
    · refine ensures_await_attends (h.cancel htyping) rfl ?_
      intro mid status' outcome _ h' hactive' houtcome
      cases outcome with
      | completed =>
        have hstate : (mid.removeJob t.id).player.state = .completed :=
          h'.tells.of_completed houtcome
        rw [if_neg (by simp)]
        exact hnext false _ h'.removeJob hactive' (by simp [hstate, hactive])
      | cancelled =>
        rw [if_pos ⟨rfl, htyping⟩]
        refine ensures_performAll _ (hnext true _ h'.removeJob hactive' ?_)
        rw [state_foldl_perform]
        simp [State.after, hactive]
    -- The session is over and has told its end: nothing more happens to it.
    · have hover : ∀ j ∈ ({ st with player := { st.player with active := none } }.cancelJob
          t.id).jobs, j.status.isOver := by
        simp [cancelJob, h.jobs, h.tells.isOver htyping]
      intro mid hm
      refine ⟨trivial, fun outcome _ => ?_⟩
      obtain ⟨clock, registry, rfl, -⟩ := eq_of_moves_of_over hover hm
      rw [if_neg (fun hboth => htyping hboth.2)]
      refine hnext false _ ?_ rfl ?_
      · simp [removeJob, cancelJob, h.jobs]
      · simp [removeJob, cancelJob, htyping]

theorem ensures_cancels_told {c : Command} (hc : c.cancels) (h : Told st) :
    c.request.Ensures w (fun _ _ => True) (fun _ st' => Settles w c st st') st := by
  refine Command.ensures_of_cancels hc fun next hnext => ensures_halt_told h ?_
  intro stopped st' hjobs hactive htyping
  refine hnext stopped st' fun _ => ?_
  cases c with
  | start text speed callback =>
    exact ⟨told_launch hjobs text speed callback, nofun⟩
  | stop =>
    refine ⟨.rests hjobs hactive, fun _ => ?_⟩
    show st'.player.state = .typing ↔ _
    simpa [TypesOn] using htyping
  | setInstant text =>
    have hkeeps := Command.keeps_setInstant st' text
    refine ⟨.rests (hkeeps.jobs.trans hjobs) (hkeeps.active.trans hactive), fun _ => ?_⟩
    simp [TypesOn, Command.afterwards, state_perform, State.after]
  | skip => cases hc
  | join => cases hc

theorem ensures_skip_told (h : Told st) :
    Request.skip.Ensures w (fun _ _ => True) (fun _ st' => Settles w .skip st st') st := by
  rw [Request.skip, Ensures]
  -- Only a session that types is skipped; otherwise nothing happens at all.
  by_cases htyping : st.player.state = .typing
  · rw [if_neg (fun hstill => hstill htyping)]
    cases h with
    | rests hjobs hactive =>
      simp only [Ensures, hactive]
      exact ⟨.rests hjobs hactive, fun _ => by simp [TypesOn, hactive]⟩
    | @plays t status h hactive =>
      simp only [Ensures, hactive]
      refine ensures_await_attends (h.cancel htyping) rfl ?_
      intro mid status' outcome _ h' hactive' houtcome
      have hnever : ¬TypesOn w .skip st (mid.removeJob t.id) := by simp [TypesOn, hactive]
      cases outcome with
      | completed =>
        have hstate : (mid.removeJob t.id).player.state = .completed :=
          h'.tells.of_completed houtcome
        exact ⟨.rests h'.removeJob hactive', fun _ => by simp [hstate, hnever]⟩
      | cancelled =>
        have hrendered := keeps_render (mid.removeJob t.id) t.source t.tags t.speed
        simp only [Ensures, Option.getD_some]
        generalize (mid.removeJob t.id).render t.source t.tags t.speed = r at hrendered ⊢
        refine ensures_performAll _ ?_
        have hkeeps effects := hrendered.trans (keeps_foldl_perform r.2 effects)
        refine ⟨.rests ((hkeeps _).jobs.trans h'.removeJob) ((hkeeps _).active.trans hactive'),
          fun _ => ?_⟩
        rw [state_foldl_perform]
        simp [State.after, TypesOn, hactive]
  · rw [if_pos htyping]
    exact ⟨h, fun _ => by simp [TypesOn, htyping]⟩

/-- A wait passes on what the player tells, and leaves it typing if the session breaks down. -/
theorem ensures_join_told (h : Told st) :
    Request.join.Ensures w (fun _ _ => True) (fun answer st' => Settles w .join st st' ∧
      ∀ outcome, answer = some outcome → st'.player.active = none ∧
        (outcome = .completed ∧ st'.player.state = .completed ∨
          outcome = .cancelled ∧ (st'.player.state = .cancelled ∨ BreaksDown w st st'))) st := by
  cases h with
  | rests hjobs hactive =>
    simp only [Request.join, Ensures, hactive]
    refine ⟨⟨.rests hjobs rfl, fun _ => ?_⟩, by simp⟩
    simp [TypesOn, BreaksDown, hactive]
  | @plays t status h hactive =>
    rw [Request.join, Ensures, hactive]
    refine ensures_await_attends (show Attends t status false _ from { h with }) rfl ?_
    intro mid status' outcome hm h' hactive' houtcome
    refine ⟨⟨.rests h'.removeJob hactive', fun _ => ?_⟩, ?_⟩
    · show mid.player.state = .typing ↔ _
      rw [h.typing_iff hactive hm h' houtcome]
      simp [TypesOn, hactive]
    · rintro _ ⟨⟩
      refine ⟨hactive', ?_⟩
      cases outcome with
      | completed => exact .inl ⟨rfl, h'.tells.of_completed houtcome⟩
      | cancelled =>
        refine .inr ⟨rfl, ?_⟩
        rcases h'.tells.of_cancelled houtcome with hstate | rfl
        · exact .inl hstate
        · exact .inr ⟨t, mid, hactive, hm, h'.jobs, rfl⟩

theorem ensures_told (h : Told st) (c : Command) :
    c.request.Ensures w (fun _ _ => True) (fun _ st' => Settles w c st st') st := by
  cases c with
  | skip => exact ensures_skip_told h
  | join => exact (ensures_join_told h).mono fun _ _ hpost => hpost.1
  | _ => exact ensures_cancels_told rfl h

end Request

theorem Stage.History.told {σ : Type} [TimeBase σ] {w : Surroundings σ} {start st : Stage σ}
    {calls : List Command} (hstart : Told start) (h : History w start calls st) : Told st := by
  induction h with
  | begin => exact hstart
  | move _ hm ih => exact ih.move hm
  | call _ c hsteps ih => exact ((Request.ensures_told ih c).steps hsteps).told

/-- Whatever the handlers do, and however calls and sessions are interleaved: behind a call, a
player that has no session types exactly if the call has waited for a session that broke down, or if
the player had been left so and nothing was started or shown since. What a wait answers agrees with
the state in all other cases. -/
theorem Stage.History.typesOn_iff {σ : Type} [TimeBase σ] {w : Surroundings σ} {registry : Registry}
    {clock : σ} {config : Config} {hub : HubRef} {start st : Stage σ} {calls : List Command}
    (hnew : Stage.new? registry clock config hub = some start) (h : History w start calls st) :
    (∀ (c : Command) answer st', Request.Steps w (c.request, st) (.done answer, st') →
      st'.player.active = none → (st'.player.state = .typing ↔ TypesOn w c st st')) ∧
    ∀ outcome st', Request.Steps w (Request.join, st) (.done (some outcome), st') →
      st'.player.active = none ∧
        (outcome = .completed ∧ st'.player.state = .completed ∨
          outcome = .cancelled ∧ (st'.player.state = .cancelled ∨ BreaksDown w st st')) := by
  have htold := h.told (told_of_new? hnew)
  refine ⟨fun c answer st' hs => ?_, fun outcome st' hs => ?_⟩
  · exact ((Request.ensures_told htold c).steps hs).typing
  · exact ((Request.ensures_join_told htold).steps hs).2 outcome rfl

/-- A session that completes and is waited for. -/
theorem Stage.History.typesOn_iff_of_join :
    ∃ start st st' : Stage Clock,
      Stage.new? (.withBuiltins .own) { isOpen := true } {} .own = some start ∧
      History ⟨fun _ => True, fun _ => True⟩ start [.start "ab" none true] st ∧
      Request.Steps ⟨fun _ => True, fun _ => True⟩ (Request.join, st)
        (.done (some .completed), st') ∧
      st'.player.active = none ∧ st'.player.state = .completed := by
  have hrun : ((Stage.new? (.withBuiltins .own) ({ isOpen := true } : Clock) {} .own).bind
      fun start => ((Request.start "ab" none true).run? start).bind fun begun =>
        (Request.join.run? begun.2).map fun joined => joined.1) = some (some .completed) := by
    decide +kernel
  simp only [Option.bind_eq_some_iff, Option.map_eq_some_iff] at hrun
  obtain ⟨start, hnew, ⟨id, st⟩, hbegun, ⟨_, st'⟩, hjoin, rfl⟩ := hrun
  have hhistory : History ⟨fun _ => True, fun _ => True⟩ start [.start "ab" none true] st :=
    .call .begin (.start "ab" none true) (Request.steps_of_run? _ hbegun)
  have hsteps := Request.steps_of_run? ⟨fun _ => True, fun _ => True⟩ hjoin
  obtain ⟨hactive, hends⟩ := (History.typesOn_iff hnew hhistory).2 .completed st' hsteps
  obtain ⟨-, hstate⟩ | ⟨hnever, -⟩ := hends
  · exact ⟨start, st, st', hnew, hhistory, hsteps, hactive, hstate⟩
  · cases hnever

/-- A handler that breaks down. The wait for its session answers that it was cancelled, and leaves
the player typing. -/
theorem Stage.History.typing_of_join :
    ∃ (registry : Registry) (start st st' : Stage Clock),
      Stage.new? registry {} {} .own = some start ∧
      History ⟨fun _ => True, fun _ => True⟩ start [.start "[x]" none true] st ∧
      Request.Steps ⟨fun _ => True, fun _ => True⟩ (Request.join, st)
        (.done (some .cancelled), st') ∧
      st'.player.active = none ∧ st'.player.state = .typing := by
  have hrun : ((Stage.new? ((Registry.withBuiltins .own).register
      { name := "x", opening := fun ctx _ => ⟨ctx, .crashed, []⟩ }) ({} : Clock) {} .own).bind
      fun start => ((Request.start "[x]" none true).run? start).bind fun begun =>
        (Request.join.run? begun.2).map fun joined =>
          (joined.1, joined.2.player.active, joined.2.player.state)) =
      some (some .cancelled, none, .typing) := by
    decide +kernel
  simp only [Option.bind_eq_some_iff, Option.map_eq_some_iff, Prod.mk.injEq] at hrun
  obtain ⟨start, hnew, ⟨id, st⟩, hbegun, ⟨_, st'⟩, hjoin, rfl, hactive, hstate⟩ := hrun
  exact ⟨_, start, st, st', hnew,
    .call .begin (.start "[x]" none true) (Request.steps_of_run? _ hbegun),
    Request.steps_of_run? _ hjoin, hactive, hstate⟩

end TextReveal
