import TextReveal.Proofs.LifeCycle
import TextReveal.Proofs.Solo
import TextReveal.Proofs.Stable
/-!
What becomes of a session that its owner cancels. One over a text that is not empty does nothing
more; one over the empty text that has not had a turn completes all the same.
-/
namespace TextReveal
open Ledger

theorem Status.Leaves.outcome {status : Status} {outcome : Outcome} (h : status.Leaves)
    (ho : status.outcome? = some outcome) : outcome = .cancelled := by
  cases status <;> cases ho
  · exact h
  · cases h

namespace Stage
variable {σ : Type}

/-- The stage of an owner who has let the active session go, in surroundings of its own. -/
def letGo (st : Stage σ) (clock : σ) (registry : Registry) (jobs : List Job) : Stage σ :=
  { st with clock, registry, jobs, player := { st.player with active := none } }

/-- What a call comes to under which the session of a ticket ends so: that, and what the call has
left to do. -/
def EndsAs (st : Stage σ) (c : Command) (t : Ticket) (e : Ending) (st' : Stage σ) : Prop :=
  ∃ clock registry, registry.Sound ∧
    st' = c.afterwards ((e.effects t.id).foldl perform (st.letGo clock registry []))

theorem perform_letGo (st : Stage σ) (clock : σ) (registry : Registry) (jobs : List Job)
    (e : Effect) :
    (st.letGo clock registry jobs).perform e = (st.perform e).letGo clock registry jobs := by
  cases e with
  | frame => rfl
  | publish => rfl
  | setState => rfl
  | complete session =>
    by_cases h : session ∈ st.callbacks <;> simp [perform, runCallback, letGo, note, h]
  | signal s =>
    cases s with
    | called => rfl
    | action hub payload =>
      by_cases h : hub = st.listenedHub <;> simp [perform, signal, letGo, fire_eq, note, h]

theorem foldl_perform_letGo (st : Stage σ) (clock : σ) (registry : Registry) (jobs : List Job)
    (effects : List Effect) :
    effects.foldl perform (st.letGo clock registry jobs) =
      (effects.foldl perform st).letGo clock registry jobs := by
  induction effects generalizing st with
  | nil => rfl
  | cons e effects ih => rw [List.foldl_cons, List.foldl_cons, perform_letGo, ih]

theorem cancelJob_eq_letGo {st : Stage σ} {j : Job} {id : Nat} (hjobs : st.jobs = [j])
    (hid : j.id = id) :
    { st with player := { st.player with active := none } }.cancelJob id =
      st.letGo st.clock st.registry [⟨id, j.status, true⟩] := by
  simp [cancelJob, letGo, hjobs, hid]

theorem outcome?_letGo (st : Stage σ) (clock : σ) (registry : Registry) (id : Nat)
    (status : Status) :
    (st.letGo clock registry [⟨id, status, true⟩]).outcome? id = status.outcome? := by
  simp [outcome?, job?, letGo]

theorem removeJob_letGo (st : Stage σ) (clock : σ) (registry : Registry) (id : Nat)
    (status : Status) :
    (st.letGo clock registry [⟨id, status, true⟩]).removeJob id = st.letGo clock registry [] := by
  simp [removeJob, letGo]

variable [TimeBase σ] {w : Surroundings σ} {st st' : Stage σ} {clock : σ} {registry : Registry}
  {id : Nat} {status : Status}

theorem resume_leaves (h : status.Leaves) (through : Bool) (st : Stage σ) :
    resume ⟨true, through⟩ status st = (.ended .cancelled, st) := by
  cases status with
  | ready s => exact drive_silent h through _ st
  | asleep seconds next => exact drive_silent h through _ st
  | ended outcome =>
    obtain rfl : outcome = .cancelled := h
    rfl
  | crashed => cases h

/-- A turn of a session that leaves is seen by nobody. -/
theorem turn_leaves (h : status.Leaves) (through : Bool) :
    (st.letGo clock registry [⟨id, status, true⟩]).turn through 0 =
      st.letGo clock registry [⟨id, .ended .cancelled, true⟩] := by
  rw [turn_lone rfl, resume_leaves h]
  rfl

theorem moves_leaves (h : status.Leaves)
    (hm : (st.letGo clock registry [⟨id, status, true⟩]).Moves w st') :
    ∃ clock' registry' status', status'.Leaves ∧ (registry' = registry ∨ w.registry registry') ∧
      st' = st.letGo clock' registry' [⟨id, status', true⟩] := by
  induction hm with
  | refl => exact ⟨clock, registry, status, h, .inl rfl, rfl⟩
  | tail _ hm ih =>
    obtain ⟨clock', registry', status', hleaves, hregistry, rfl⟩ := ih
    cases hm with
    | clock => exact ⟨_, registry', status', hleaves, hregistry, rfl⟩
    | registry hr => exact ⟨clock', _, status', hleaves, .inr hr, rfl⟩
    | turn through index =>
      cases index with
      | succ index =>
        rw [turn_lone_succ rfl]
        exact ⟨clock', registry', status', hleaves, hregistry, rfl⟩
      | zero =>
        exact ⟨clock', registry', .ended .cancelled, rfl, hregistry, turn_leaves hleaves through⟩

/-- A session over the empty text that is cancelled before its first turn completes in that turn all
the same. -/
theorem turn_blank (through : Bool) :
    (st.letGo clock registry [⟨id, .ready (.complete id), true⟩]).turn through 0 =
      ((Ending.completed.effects id).foldl perform st).letGo clock registry
        [⟨id, .ended .completed, true⟩] := by
  have hdrive : resume ⟨true, through⟩ (.ready (.complete id))
      (st.letGo clock registry [⟨id, .ready (.complete id), true⟩]) =
        (.ended .completed, (Ending.completed.effects id).foldl perform
          (st.letGo clock registry [⟨id, .ready (.complete id), true⟩])) := rfl
  rw [turn_lone rfl, hdrive, foldl_perform_letGo]
  rfl

theorem moves_blank
    (hm : (st.letGo clock registry [⟨id, .ready (.complete id), true⟩]).Moves w st') :
    ∃ clock' registry', (registry' = registry ∨ w.registry registry') ∧
      (st' = st.letGo clock' registry' [⟨id, .ready (.complete id), true⟩] ∨
        st' = ((Ending.completed.effects id).foldl perform st).letGo clock' registry'
          [⟨id, .ended .completed, true⟩]) := by
  induction hm with
  | refl => exact ⟨clock, registry, .inl rfl, .inl rfl⟩
  | tail _ hm ih =>
    obtain ⟨clock', registry', hregistry, rfl | rfl⟩ := ih
    -- Either the session has not had its turn, or it is over and stays so.
    · cases hm with
      | clock => exact ⟨_, registry', hregistry, .inl rfl⟩
      | registry hr => exact ⟨clock', _, .inr hr, .inl rfl⟩
      | turn through index =>
        refine ⟨clock', registry', hregistry, ?_⟩
        cases index with
        | succ index => exact .inl (turn_lone_succ rfl ..)
        | zero => exact .inr (turn_blank through)
    · cases hm with
      | clock => exact ⟨_, registry', hregistry, .inr rfl⟩
      | registry hr => exact ⟨clock', _, .inr hr, .inr rfl⟩
      | turn through index =>
        refine ⟨clock', registry', hregistry, .inr (turn_of_over ?_ through index)⟩
        simp [letGo, Status.isOver]

end Stage

namespace Stage
variable {σ : Type} [TimeBase σ] {w : Surroundings σ} {st : Stage σ} {past : List Block} {b : Block}
  {t : Ticket} {j : Job} {c : Command}
open Request

theorem Plays.ensures_leaves (hw : ∀ r, w.registry r → r.Sound) (h : Plays past b t j st)
    (hactive : st.player.active = some t) (hopen : b.ending = none) (hleaves : j.status.Leaves)
    (hc : c.cancels) :
    c.request.Ensures w
      (fun session st' => session = t ∧ ∃ clock registry status, status.Leaves ∧
        st' = st.letGo clock registry [⟨t.id, status, true⟩])
      (fun _ => st.EndsAs c t .cancelled) st := by
  have htyping : st.player.state = .typing := h.records.typing_iff.mpr hopen
  refine Command.ensures_of_cancels hc fun next hnext => ?_
  simp only [halt, Ensures, hactive]
  rw [cancelJob_eq_letGo h.jobs h.job]
  intro st' hm
  obtain ⟨clock, registry, status, hstill, hregistry, rfl⟩ := moves_leaves hleaves hm
  refine ⟨⟨trivial, clock, registry, status, hstill, rfl⟩, fun outcome houtcome => ?_⟩
  have hsound : registry.Sound := h.sound.of_surroundings hw hregistry
  rw [outcome?_letGo] at houtcome
  rw [if_pos ⟨hstill.outcome houtcome, htyping⟩, removeJob_letGo]
  exact ensures_performAll _ (hnext true _ fun _ => ⟨clock, registry, hsound, rfl⟩)

theorem Plays.ensures_blank (hw : ∀ r, w.registry r → r.Sound) (h : Plays past b t j st)
    (hactive : st.player.active = some t) (hblank : j.status = .ready (.complete t.id))
    (hc : c.cancels) :
    c.request.Ensures w
      (fun session st' => session = t ∧
        ∃ index outcome, (st'.turn true index).outcome? t.id = some outcome)
      (fun _ => st.EndsAs c t .completed) st := by
  refine Command.ensures_of_cancels hc fun next hnext => ?_
  simp only [halt, Ensures, hactive]
  rw [cancelJob_eq_letGo h.jobs h.job, hblank]
  intro st' hm
  obtain ⟨clock, registry, hregistry, hst'⟩ := moves_blank hm
  have hsound : registry.Sound := h.sound.of_surroundings hw hregistry
  obtain rfl | rfl := hst'
  · refine ⟨⟨trivial, 0, .completed, ?_⟩, fun outcome houtcome => ?_⟩
    · rw [turn_blank, outcome?_letGo]
      rfl
    · rw [outcome?_letGo] at houtcome
      cases houtcome
  · refine ⟨⟨trivial, 1, .completed, ?_⟩, fun outcome houtcome => ?_⟩
    · rw [turn_lone_succ rfl, outcome?_letGo]
      rfl
    · rw [outcome?_letGo] at houtcome
      cases houtcome
      rw [if_neg (by simp), removeJob_letGo, ← foldl_perform_letGo]
      exact hnext false _ fun _ => ⟨clock, registry, hsound, rfl⟩

end Stage

namespace Stage
variable {σ : Type}

/-- Only such sessions have this number, and none will be given it. -/
structure Only (p : Status → Prop) (id : Nat) (st : Stage σ) : Prop where
  started : id ≤ st.started
  jobs : ∀ j ∈ st.jobs, j.id = id → p j.status

section
variable {p : Status → Prop} {id : Nat} {st st' : Stage σ}

theorem Only.keeps (h : Only p id st) (hkeeps : Keeps st st') : Only p id st' :=
  ⟨hkeeps.started ▸ h.started, hkeeps.jobs ▸ h.jobs⟩

theorem Only.cancelJob (h : Only p id st) (other : Nat) : Only p id (st.cancelJob other) where
  started := h.started
  jobs := by
    intro j' hj' hid
    obtain ⟨j, hj, rfl⟩ := List.mem_map.mp hj'
    have hsame : j.id = id := by
      split at hid <;> exact hid
    split <;> exact h.jobs j hj hsame

theorem Only.launch (h : Only p id st) (text : String) (speed : Option Number.Single)
    (callback : Bool) : Only p id (st.launch text speed callback).2 where
  started := Nat.le_succ_of_le h.started
  jobs := by
    rw [jobs_launch, List.forall_mem_append]
    refine ⟨h.jobs, fun j hj hid => ?_⟩
    have hstarted := h.started
    obtain rfl := List.mem_singleton.mp hj
    simp only at hid
    omega

theorem Only.afterwards (h : Only p id st) (c : Command) : Only p id (c.afterwards st) := by
  cases c with
  | start text speed callback => exact h.launch text speed callback
  | setInstant text => exact h.keeps (Command.keeps_setInstant st text)
  | _ => exact h

end

variable [TimeBase σ] {w : Surroundings σ} {p : Status → Prop} {id : Nat}

theorem Only.turn {st : Stage σ} (hp : ∀ status pace (st : Stage σ), p status →
    p (resume pace status st).1) (h : Only p id st) (through : Bool) (index : Nat) :
    Only p id (st.turn through index) := by
  cases hj : st.jobs[index]? with
  | none => simpa [Stage.turn, hj] using h
  | some j =>
    rw [turn_eq hj]
    refine ⟨(keeps_resume _ j.status st).started ▸ h.started, fun j' hj' hid => ?_⟩
    obtain hmem | rfl := List.mem_or_eq_of_mem_set hj'
    · exact h.jobs j' hmem hid
    · exact hp _ _ _ (h.jobs j (List.mem_of_getElem? hj) hid)

theorem stable_only (hp : ∀ status pace (st : Stage σ), p status → p (resume pace status st).1)
    (id : Nat) : Stable (σ := σ) (Only p id) where
  turn h through index := h.turn hp through index
  clock h _ := ⟨h.started, h.jobs⟩
  registry h _ := ⟨h.started, h.jobs⟩
  letGo h := ⟨h.started, h.jobs⟩
  cancelJob h other := h.cancelJob other
  removeJob h _ := ⟨h.started, fun j hj => h.jobs j (List.mem_filter.mp hj).1⟩
  perform {st} h e := h.keeps (keeps_perform st e)
  launch h text speed callback := h.launch text speed callback

/-- No session of this number is there, or will be. -/
structure Past (id : Nat) (st : Stage σ) : Prop where
  started : id ≤ st.started
  jobs : id ∉ st.jobs.map Job.id

theorem past_iff {σ : Type} {id : Nat} {st : Stage σ} :
    Past id st ↔ Only (fun _ => False) id st := by
  constructor
  · rintro ⟨hstarted, hjobs⟩
    exact ⟨hstarted, fun j hj hid => hjobs (hid ▸ List.mem_map_of_mem hj)⟩
  · rintro ⟨hstarted, hjobs⟩
    refine ⟨hstarted, fun hmem => ?_⟩
    obtain ⟨j, hj, hid⟩ := List.mem_map.mp hmem
    exact hjobs j hj hid

theorem Past.afterwards {σ : Type} {id : Nat} {st : Stage σ} (h : Past id st) (c : Command) :
    Past id (c.afterwards st) :=
  past_iff.mpr ((past_iff.mp h).afterwards c)

theorem Past.seen {start st : Stage σ} {calls : List Command} (hstart : Past id start)
    (h : Seen w start calls st) : Past id st :=
  past_iff.mpr ((stable_only (fun _ _ _ hno => hno.elim) id).seen (past_iff.mp hstart) h)

end Stage

/-- What is left of a session that was cancelled: its two events. -/
structure Stage.Settled {σ : Type} (id : Nat) (st : Stage σ) : Prop where
  jobs : id ∉ st.jobs.map Job.id
  callback : .completed id ∉ st.journal.toList
  events : st.channel.sent.toList.filter (·.session? = some id) = [.started id, .cancelled id]

namespace Stage
variable {σ : Type}

theorem Plays.letGo {past : List Block} {b : Block} {t : Ticket} {j : Job} {st : Stage σ}
    (h : Plays past b t j st) (clock : σ) {registry : Registry} (hsound : registry.Sound) :
    Vacant (past ++ [b]) (st.letGo clock registry []) where
  sound := hsound
  records := h.records
  started := h.started.trans (by simp)
  jobs := rfl
  active := rfl

variable [TimeBase σ] {w : Surroundings σ} {start st st' st'' : Stage σ} {calls : List Command}

/-- A session over the empty text either has completed or has not had a turn. -/
theorem History.blank {registry : Registry} {clock : σ} {config : Config} {hub : HubRef}
    (hstart : Stage.new? registry clock config hub = some start) (h : History w start calls st)
    {t : Ticket} {j : Job} (hactive : st.player.active = some t) (hjobs : st.jobs = [j])
    (hsource : t.source = "") : j.status = .ready (.complete t.id) ∨ j.status.isOver := by
  have hsolo : Solo (fun t status => t.source = "" →
      status = .ready (.complete t.id) ∨ status.isOver) st := by
    refine h.solo ?_ ?_ (solo_of_new? hstart)
    · rintro id policy text speed (rfl : text = "")
      exact .inl rfl
    · intro t status through st hp hsource
      obtain rfl | hover := hp hsource
      · exact .inr rfl
      · cases status with
        | ended => exact .inr rfl
        | crashed => exact .inr rfl
        | _ => cases hover
  cases hsolo with
  | nobody hnone => simp [hnone] at hjobs
  | somebody hjobs' hactive' hid hfree hp =>
    obtain rfl : _ = j := by simpa [hjobs'] using hjobs
    obtain rfl : _ = t := by simpa [hactive'] using hactive
    exact hp hsource

theorem Plays.settled {past : List Block} {b : Block} {t : Ticket} {j : Job} {c : Command}
    {later : List Command} (hw : ∀ r, w.registry r → r.Sound) (h : Plays past b t j st)
    (hopen : b.ending = none) (hc : c.cancels) (hends : st.EndsAs c t .cancelled st')
    (hseen : st'.Seen w later st'') : st''.Settled t.id := by
  obtain ⟨clock, registry, hsound, rfl⟩ := hends
  have hmid := (h.letGo clock hsound).close h.id hopen .cancelled
  obtain ⟨blocks, hs, hbetween⟩ :=
    hmid.afterwards (hmid.records.forall_closed (b.ending_close .cancelled)) hc
  obtain ⟨blocks', hs', hrecords⟩ := hseen.records hw hbetween
  have hmem : b.close .cancelled ∈ blocks' := hs'.kept _ (hs.kept _ (by simp) rfl) rfl
  have hpast : Past t.id st'' := by
    refine Past.seen (Past.afterwards ⟨?_, ?_⟩ c) hseen
    · rw [hmid.started, h.id, h.records.id_eq]
      simp
    · simp [hmid.jobs]
  refine ⟨hpast.jobs, ?_, ?_⟩
  · have hcount := hrecords.count_ran hmem
    rw [show (b.close .cancelled).id = t.id from h.id.symm] at hcount
    rw [← List.count_eq_zero, count_completed]
    exact hcount.trans (by simp [Block.isCompleted, Block.close, Ending.isCompletion])
  · have hevents := hrecords.filter_events hmem
    rwa [show (b.close .cancelled).id = t.id from h.id.symm] at hevents

end Stage

/-- An owner who cancels a session that is typing. If its text is not empty, nothing is seen of it
from then on but the one event of its cancellation: while the call waits only clock, registry and
the session itself change, the call comes to that event and what is its own, and ever after the
session is not there. If its text is empty, it has not had a turn, and completes instead. -/
theorem Stage.History.ends_of_cancels {σ : Type} [TimeBase σ] {w : Surroundings σ}
    {registry : Registry} {clock : σ} {config : Config} {hub : HubRef} {start st : Stage σ}
    {calls : List Command} {c : Command} (hregistry : registry.Sound)
    (hw : ∀ r, w.registry r → r.Sound)
    (hstart : Stage.new? registry clock config hub = some start) (h : History w start calls st)
    (htyping : st.player.state = .typing) (hc : c.cancels) :
    ∃ t, st.player.active = some t ∧
      (∀ request st', Request.Steps w (c.request, st) (request, st') →
        ∃ answer st'', Request.Steps w (request, st') (.done answer, st'')) ∧
      (t.source = "" → ∀ answer st', Request.Steps w (c.request, st) (.done answer, st') →
        st.EndsAs c t .completed st') ∧
      (t.source ≠ "" →
        (∀ session next st', Request.Steps w (c.request, st) (.await session next, st') →
          ∃ clock registry jobs, st' = st.letGo clock registry jobs) ∧
        ∀ answer st', Request.Steps w (c.request, st) (.done answer, st') →
          st.EndsAs c t .cancelled st' ∧
            ∀ later st'', st'.Seen w later st'' → st''.Settled t.id) := by
  obtain ⟨blocks, -, hbetween⟩ := h.between hw (between_of_new? hregistry hstart)
  cases hbetween with
  | rests h hclosed => exact absurd htyping (h.records.not_typing hclosed)
  | @plays past b j t hblocks hplays hactive hfree =>
    have hopen : b.ending = none := hplays.records.typing_iff.mp htyping
    have hfits : j.status.Fits t b false := hfree ▸ hplays.fits
    by_cases hsource : t.source = ""
    -- A session over the empty text has no step at which it would look.
    · have hblank : j.status = .ready (.complete t.id) := by
        obtain hblank | hover := h.blank hstart hactive hplays.jobs hsource
        · exact hblank
        · simp [hfits.not_isOver hopen] at hover
      have hensures := hplays.ensures_blank hw hactive hblank hc
      refine ⟨t, hactive, ?_, ?_, fun hne => absurd hsource hne⟩
      · intro request st' hs
        refine (hensures.steps hs).exists_steps ?_
        rintro session st'' ⟨rfl, index, outcome, houtcome⟩
        exact ⟨true, index, outcome, houtcome⟩
      · intro _ answer st' hs
        have hdone := hensures.steps hs
        exact hdone
    · have hensures := hplays.ensures_leaves hw hactive hopen (hfits.leaves hopen hsource) hc
      refine ⟨t, hactive, ?_, fun hempty => absurd hempty hsource, fun _ => ⟨?_, ?_⟩⟩
      · intro request st' hs
        refine (hensures.steps hs).exists_steps ?_
        rintro session st'' ⟨rfl, clock, registry, status, hleaves, rfl⟩
        refine ⟨false, 0, .cancelled, ?_⟩
        rw [turn_leaves hleaves, outcome?_letGo]
        rfl
      · intro session next st' hs
        obtain ⟨-, clock, registry, status, -, rfl⟩ := (hensures.steps hs st' .refl).1
        exact ⟨clock, registry, _, rfl⟩
      · intro answer st' hs
        have hends := hensures.steps hs
        exact ⟨hends, fun later st'' hseen => hplays.settled hw hopen hc hends hseen⟩

/-- A text that is stopped behind its first character. -/
theorem Stage.History.settled_of_stop :
    ∃ (start st st' : Stage Clock), Registry.Sound (.withBuiltins .own) ∧
      Stage.new? (.withBuiltins .own) {} {} .own = some start ∧
      History ⟨fun _ => True, Registry.Sound⟩ start [.start "ab" none true] st ∧
      st.player.state = .typing ∧ Command.stop.cancels ∧
      Request.Steps ⟨fun _ => True, Registry.Sound⟩ (Command.stop.request, st) (.done true, st') ∧
      ∀ later st'', st'.Seen ⟨fun _ => True, Registry.Sound⟩ later st'' → st''.Settled 1 := by
  have hrun : ((Stage.new? (.withBuiltins .own) ({} : Clock) {} .own).bind fun start =>
      ((Request.start "ab" none true).run? start).bind fun begun =>
        (Request.stop.run? (begun.2.turn false 0)).map fun stopped =>
          ((begun.2.turn false 0).player.state,
            (begun.2.turn false 0).player.active.map fun t => (t.id, t.source), stopped.1)) =
      some (.typing, some (1, "ab"), true) := by
    decide +kernel
  simp only [Option.bind_eq_some_iff, Option.map_eq_some_iff, Prod.mk.injEq] at hrun
  obtain ⟨start, hstart, ⟨id, begun⟩, hbegun, ⟨stopped, st'⟩, hstop, htyping,
    ⟨t, hactive, hid, hsource⟩, rfl⟩ := hrun
  have hsound := Registry.sound_withBuiltins .own
  have hhistory : History ⟨fun _ => True, Registry.Sound⟩ start [.start "ab" none true]
      (begun.turn false 0) :=
    (History.begin.call (.start "ab" none true) (Request.steps_of_run? _ hbegun)).move
      (.turn false 0 begun)
  have hsteps := Request.steps_of_run? ⟨fun _ => True, Registry.Sound⟩ hstop
  obtain ⟨t', hactive', -, -, hfinal⟩ :=
    History.ends_of_cancels (c := .stop) hsound (fun _ hr => hr) hstart hhistory htyping rfl
  obtain rfl : t = t' := Option.some.inj (hactive.symm.trans hactive')
  have hsettled := ((hfinal (by rw [hsource]; decide)).2 true st' hsteps).2
  exact ⟨start, _, st', hsound, hstart, hhistory, htyping, rfl, hsteps, hid ▸ hsettled⟩

/-- The empty text, stopped before its session has had a turn: the session completes, and its
callback runs. -/
theorem Stage.History.completes_of_stop :
    ∃ (start st st' : Stage Clock), Registry.Sound (.withBuiltins .own) ∧
      Stage.new? (.withBuiltins .own) {} {} .own = some start ∧
      History ⟨fun _ => True, Registry.Sound⟩ start [.start "" none true] st ∧
      st.player.state = .typing ∧
      Request.Steps ⟨fun _ => True, Registry.Sound⟩ (Command.stop.request, st) (.done false, st') ∧
      st'.channel.sent.toList = [.started 1, .completed 1] ∧
      Entry.completed 1 ∈ st'.journal.toList := by
  have hrun : ((Stage.new? (.withBuiltins .own) ({} : Clock) {} .own).bind fun start =>
      ((Request.start "" none true).run? start).bind fun begun =>
        (Request.stop.run? begun.2).map fun stopped =>
          (begun.2.player.state, stopped.1, stopped.2.channel.sent.toList,
            stopped.2.journal.toList)) =
      some (.typing, false, [.started 1, .completed 1],
        [.frame "", .published (.started 1), .published (.completed 1), .completed 1]) := by
    decide
  simp only [Option.bind_eq_some_iff, Option.map_eq_some_iff, Prod.mk.injEq] at hrun
  obtain ⟨start, hstart, ⟨id, st⟩, hbegun, ⟨stopped, st'⟩, hstop, htyping, rfl, hsent, hjournal⟩ :=
    hrun
  refine ⟨start, st, st', Registry.sound_withBuiltins .own, hstart,
    .call .begin (.start "" none true) (Request.steps_of_run? _ hbegun), htyping,
    Request.steps_of_run? _ hstop, hsent, ?_⟩
  rw [hjournal]
  simp

end TextReveal
