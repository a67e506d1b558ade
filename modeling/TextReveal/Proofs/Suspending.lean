import TextReveal.Proofs.Cancelling
import TextReveal.Proofs.Score
/-!
When a session over the built-in handlers lets others run. Each step of its loop begins with a look
at whether it is cancelled, and each suspension ends with one; but not every stretch of steps that
is due for a suspension has one.
-/
namespace TextReveal
open Number

/-- Whether a session hands over by an act, or may do so. -/
@[simp] def Act.suspends : Act → Bool
  | yielded | asked _ => true
  | did _ | looked | finished _ => false

/-- Acts among which every suspension is followed by a look. -/
def Act.Attentive : List Act → Prop
  | [] => True
  | act :: rest => (act.suspends → rest.head? = some looked) ∧ Attentive rest

@[simp] theorem Act.attentive_nil : Attentive [] := trivial

@[simp] theorem Act.attentive_cons {act : Act} {acts : List Act} :
    Attentive (act :: acts) ↔ (act.suspends → acts.head? = some looked) ∧ Attentive acts :=
  Iff.rfl

theorem Act.Attentive.append {acts rest : List Act} (h : Attentive acts) (hrest : Attentive rest) :
    Attentive (acts ++ rest) := by
  induction acts with
  | nil => exact hrest
  | cons act acts ih =>
    obtain ⟨hnext, hlater⟩ := h
    refine ⟨fun hsuspends => ?_, ih hlater⟩
    show (acts ++ rest).head? = some looked
    rw [List.head?_append, hnext hsuspends]
    rfl

namespace Stance
variable (hub : HubRef) (policy : UnknownTags)

/-- The steps of the loop over these units: where it is, and the unit that it takes. -/
def course (s : Stance) : List Piece → List (Stance × Piece)
  | [] => []
  | p :: rest => (s, p) :: (s.after policy p).course rest

/-- What the loop does in these steps. -/
def acting (steps : List (Stance × Piece)) : List Act :=
  steps.flatMap fun step => step.1.acts hub policy step.2

/-- Whether the loop is to yield in this step, should it have no delay. -/
def isDue (s : Stance) : Bool := (s.steps + 1) % Session.yieldEvery == 0

/-- A delay or a pause in a step. -/
def waits (s : Stance) : Piece → Bool
  | .plain _ => s.tempo.speed.isPositive
  | .tag t => t.pause?.isSome

theorem flatten_rounds (s : Stance) (units : List Piece) :
    (s.rounds hub policy units).flatten = acting hub policy (s.course policy units) := by
  induction units generalizing s with
  | nil => rfl
  | cons p rest ih => rw [rounds, List.flatten_cons, ih]; rfl

theorem acting_append (steps rest : List (Stance × Piece)) :
    acting hub policy (steps ++ rest) = acting hub policy steps ++ acting hub policy rest :=
  List.flatMap_append

theorem course_append (s : Stance) (units rest : List Piece) :
    s.course policy (units ++ rest) =
      s.course policy units ++ (units.foldl (after policy) s).course policy rest := by
  induction units generalizing s with
  | nil => rfl
  | cons p units ih => rw [List.cons_append, course, ih, course, List.cons_append, List.foldl_cons]

theorem any_suspends_turnActs (s : Stance) :
    (Session.turnActs (s.steps + 1) s.tempo.speed).any Act.suspends =
      (s.isDue && s.tempo.speed.isNonPositive) := by
  unfold Session.turnActs isDue
  by_cases hdue : (s.steps + 1) % Session.yieldEvery = 0
  · by_cases hspeed : s.tempo.speed.isNonPositive
    · simp [hdue, hspeed]
    · simp [hdue, hspeed]
  · simp [hdue]

theorem any_suspends_tagActs (t : Tag) : (t.acts hub).any Act.suspends = t.pause?.isSome := by
  unfold Tag.acts
  split
  · cases t.pause? <;> rfl
  · rename_i hname
    rw [Tag.pause?, if_neg hname]
    split <;> rfl

/-- A step suspends the session if it is due and there is no delay, or if something is waited
for. -/
theorem any_suspends_acts (s : Stance) (p : Piece) :
    (s.acts hub policy p).any Act.suspends =
      (s.isDue && s.tempo.speed.isNonPositive || s.waits p) := by
  cases p with
  | plain c =>
    rw [acts, List.any_append, any_suspends_turnActs, waits, Session.delayActs]
    by_cases hspeed : s.tempo.speed.isPositive
    · simp [hspeed]
    · simp [hspeed]
  | tag t =>
    rw [acts, List.any_append, any_suspends_turnActs, List.any_append, any_suspends_tagActs]
    simp [waits]

theorem attentive_turnActs (step : Nat) (speed : Single) :
    Act.Attentive (Session.turnActs step speed) := by
  unfold Session.turnActs
  split <;> simp

theorem attentive_delayActs (speed : Single) : Act.Attentive (Session.delayActs speed) := by
  unfold Session.delayActs
  split <;> simp

theorem attentive_tagActs (t : Tag) : Act.Attentive (t.acts hub) := by
  unfold Tag.acts
  split
  · cases t.pause? <;> simp
  · split <;> simp

/-- The loop looks before each step, and behind everything that suspends it. -/
theorem attentive_acts (s : Stance) (p : Piece) :
    (s.acts hub policy p).head? = some .looked ∧ Act.Attentive (s.acts hub policy p) := by
  cases p with
  | plain c =>
    rw [acts]
    refine ⟨rfl, (attentive_turnActs _ _).append ?_⟩
    simpa using attentive_delayActs s.tempo.speed
  | tag t =>
    rw [acts]
    refine ⟨rfl, (attentive_turnActs _ _).append ((attentive_tagActs hub t).append ?_)⟩
    simp

/-- The steps are numbered one after the other. -/
theorem steps_course {s : Stance} {units : List Piece} {i : Nat} {step : Stance × Piece}
    (h : (s.course policy units)[i]? = some step) : step.1.steps = s.steps + i := by
  induction units generalizing s i with
  | nil => simp [course] at h
  | cons p rest ih =>
    cases i with
    | zero =>
      obtain rfl : (s, p) = step := by simpa [course] using h
      rfl
    | succ i =>
      have hrest := ih (s := s.after policy p) (by simpa [course] using h)
      show step.1.steps = s.steps + (i + 1)
      rw [hrest, show (s.after policy p).steps = s.steps + 1 from rfl]
      omega

/-- Of so many consecutive steps one is due. -/
theorem exists_isDue {s : Stance} {units : List Piece} {i : Nat}
    (h : i + Session.yieldEvery ≤ (s.course policy units).length) :
    ∃ due ∈ ((s.course policy units).drop i).take Session.yieldEvery, due.1.isDue := by
  have hevery : Session.yieldEvery = 64 := rfl
  obtain ⟨k, hk, hdue⟩ : ∃ k < 64, (s.steps + (i + k) + 1) % 64 = 0 :=
    ⟨63 - (s.steps + i) % 64, by omega, by omega⟩
  have hlt : i + k < (s.course policy units).length := by omega
  refine ⟨(s.course policy units)[i + k], ?_, ?_⟩
  · rw [List.mem_take_iff_getElem]
    refine ⟨k, by rw [List.length_drop]; omega, ?_⟩
    rw [List.getElem_drop]
  · rw [isDue, steps_course policy (List.getElem?_eq_getElem hlt), hevery, hdue]
    rfl

/-- Steps suspend the session if one of them is due at a speed that is not above zero, or waits. -/
theorem suspends_acting (steps : List (Stance × Piece)) :
    (∃ act ∈ acting hub policy steps, act.suspends) ↔
      ∃ step ∈ steps, step.1.isDue ∧ step.1.tempo.speed.isNonPositive ∨ step.1.waits step.2 := by
  have hstep (step : Stance × Piece) :
      (∃ act ∈ step.1.acts hub policy step.2, act.suspends) ↔
        step.1.isDue ∧ step.1.tempo.speed.isNonPositive ∨ step.1.waits step.2 := by
    rw [← List.any_eq_true, any_suspends_acts, Bool.or_eq_true, Bool.and_eq_true]
  constructor
  · rintro ⟨act, hact, hsuspends⟩
    obtain ⟨step, hmem, hact⟩ := List.mem_flatMap.mp hact
    exact ⟨step, hmem, (hstep step).mp ⟨act, hact, hsuspends⟩⟩
  · rintro ⟨step, hmem, hwhy⟩
    obtain ⟨act, hact, hsuspends⟩ := (hstep step).mpr hwhy
    exact ⟨act, List.mem_flatMap.mpr ⟨step, hmem, hact⟩, hsuspends⟩

end Stance

namespace Stage
variable {σ : Type}

/-- The steps of the loop of a session that is started on this stage. -/
def course (st : Stage σ) (text : String) (speed : Option Single) : List (Stance × Piece) :=
  Stance.course st.player.config.unknownTags
    ⟨0, 0, ⟨speed.getD st.player.config.defaultSpeed, []⟩, ""⟩
    ((Piece.cut text).flatMap (Piece.units (st.registry.takes st.player.config.unknownTags)))

/-- Wherever a session over a text has stopped, it leaves if it is cancelled. -/
theorem Plays.heeds {past : List Block} {b : Block} {t : Ticket} {j : Job} {st : Stage σ}
    (h : Plays past b t j st) (hfree : j.cancelled = false) (hsource : t.source ≠ "") :
    j.status.isOver ∨ j.status.Leaves := by
  have hfits : j.status.Fits t b false := hfree ▸ h.fits
  by_cases hopen : b.ending = none
  · exact .inr (hfits.leaves hopen hsource)
  · exact .inl (hfits.isOver hopen)

variable [TimeBase σ]

/-- A session that its owner leaves alone keeps order. -/
theorem Unattended.plays {ok : σ → Prop} {past : List Block} {b : Block} {t : Ticket} {j : Job}
    {n : Nat} {start st : Stage σ} (hplays : Plays past b t j start)
    (h : Unattended ok start n st) :
    ∃ b' j', b.Continues b' ∧ Plays past b' t j' st ∧ j'.cancelled = j.cancelled := by
  induction h with
  | begin => exact ⟨b, j, .refl b, hplays, rfl⟩
  | turn _ through index ih =>
    obtain ⟨b', j', hb', h', hcancelled⟩ := ih
    obtain ⟨b'', j'', hb'', h'', hsame⟩ := h'.turn through index
    exact ⟨b'', j'', hb'.trans hb'', h'', hsame.trans hcancelled⟩
  | clock _ _ ih =>
    obtain ⟨b', j', hb', h', hcancelled⟩ := ih
    exact ⟨b', j', hb', { h' with }, hcancelled⟩
  | wait _ ih =>
    obtain ⟨b', j', hb', h', hcancelled⟩ := ih
    exact ⟨b', j', hb', { h' with }, hcancelled⟩

/-- A session that has just been started keeps order. -/
theorem History.plays_of_start {w : Surroundings σ} {registry : Registry} {clock : σ}
    {config : Config} {hub : HubRef} {start st begun : Stage σ} {calls : List Command}
    {text : String} {speed : Option Single} {callback : Bool} {id : Nat}
    (hregistry : registry.Sound) (hw : ∀ r, w.registry r → r.Sound)
    (hnew : Stage.new? registry clock config hub = some start) (h : History w start calls st)
    (hs : Request.Steps w (.start text speed callback, st) (.done id, begun)) :
    ∃ (before : Stage σ) (past : List Block) (b : Block), before.jobs = [] ∧
      id = before.started + 1 ∧ begun = (before.launch text speed callback).2 ∧
      b.callback = callback ∧
      Plays past b ⟨id, text, Tag.lex text, speed.getD before.player.config.defaultSpeed⟩
        ⟨id, before.opening text speed, false⟩ begun := by
  obtain ⟨blocks, -, hbetween⟩ := h.between hw (between_of_new? hregistry hnew)
  have hleads := (hbetween.ensures hw (.start text speed callback)).steps hs
  obtain ⟨blocks', hsucceeds, hbetween'⟩ := hleads
  obtain ⟨before, hjobs, rfl, rfl⟩ := h.launched hnew hs
  have halone := jobs_launch before text speed callback
  rw [hjobs, List.nil_append] at halone
  cases hbetween' with
  | rests hvacant =>
    rw [hvacant.jobs] at halone
    cases halone
  | @plays past b j t hblocks hplays hactive hfree =>
    cases hactive
    obtain rfl := List.singleton_inj.mp (hplays.jobs.symm.trans halone)
    -- The start has added one block, and that is the one the session plays.
    have hcallbacks := hsucceeds.callbacks
    rw [hblocks, List.map_append] at hcallbacks
    have hlast := (List.append_inj' hcallbacks rfl).2
    exact ⟨before, past, b, hjobs, rfl, rfl, List.singleton_inj.mp hlast, hplays⟩

end Stage

/-- When a session over the built-in handlers suspends itself, which its owner does not cancel and
no clock fails. It looks whether it is cancelled at the start of every step, and behind every
suspension; wherever it has stopped, a cancellation ends it at once. Of as many steps as go by
between yields one is due, but it yields only at a speed that is not above zero: at others the steps
suspend it exactly if a character among them has a delay, or a pause has. -/
theorem Stage.History.suspends_iff {σ : Type} [TimeBase σ] {w : Surroundings σ}
    {registry : Registry} {clock : σ} {config : Config} {hub hub' : HubRef}
    {start st begun : Stage σ} {calls : List Command} {text : String} {speed : Option Single}
    {callback : Bool} {id : Nat} (hregistry : registry.Sound) (hw : ∀ r, w.registry r → r.Sound)
    (hnew : Stage.new? registry clock config hub = some start) (h : History w start calls st)
    (hs : Request.Steps w (.start text speed callback, st) (.done id, begun))
    (hbuiltin : begun.registry = .withBuiltins hub') :
    (∀ n after, begun.Undisturbed n after → ∃ status, after.jobs = [⟨id, status, false⟩] ∧
      Does (Stance.acting hub' begun.player.config.unknownTags (begun.course text speed) ++
        (Session.complete id).acts begun.registry) begun (status, after) ∧
      (text ≠ "" → status.isOver ∨ ∀ through (st' : Stage σ),
        resume ⟨true, through⟩ status st' = (.ended .cancelled, st'))) ∧
    (∀ step ∈ begun.course text speed, ∃ acts,
      acts = step.1.acts hub' begun.player.config.unknownTags step.2 ∧
        acts.head? = some .looked ∧ Act.Attentive acts) ∧
    ∀ i, i + Session.yieldEvery ≤ (begun.course text speed).length → ∃ steps,
      steps = ((begun.course text speed).drop i).take Session.yieldEvery ∧
        (∃ due ∈ steps, due.1.isDue) ∧
        ((∃ act ∈ Stance.acting hub' begun.player.config.unknownTags steps, act.suspends) ↔
          ∃ step ∈ steps, step.1.isDue ∧ step.1.tempo.speed.isNonPositive ∨
            step.1.waits step.2) := by
  obtain ⟨before, past, b, -, rfl, rfl, -, hplays⟩ := h.plays_of_start hregistry hw hnew hs
  have hstill : before.registry = .withBuiltins hub' := hbuiltin
  refine ⟨fun n after hrun => ?_, fun step _ => ⟨_, rfl, Stance.attentive_acts hub' _ _ _⟩,
    fun i hi => ⟨_, rfl, Stance.exists_isDue _ hi, Stance.suspends_acting hub' _ _⟩⟩
  obtain ⟨status, hjobs', -, hdoes⟩ := hrun.does hplays.jobs
  refine ⟨status, hjobs', ?_, fun hne => ?_⟩
  · have hacts := Session.acts_start (before.started + 1) hub' before.player.config.unknownTags text
      (speed.getD before.player.config.defaultSpeed)
    rw [Stance.flatten_rounds, ← hstill] at hacts
    exact hacts ▸ hdoes
  · obtain ⟨b', j', -, h', -⟩ := hrun.unattended.plays hplays
    obtain rfl : j' = ⟨before.started + 1, status, false⟩ :=
      List.singleton_inj.mp (h'.jobs.symm.trans hjobs')
    obtain hover | hleaves := h'.heeds rfl hne
    · exact .inl hover
    · exact .inr fun through st' => resume_leaves hleaves through st'

/-- Without delays every stretch of so many steps has a yield. -/
theorem Stage.History.suspends_of_zero :
    ∃ (text : String) (start begun : Stage Clock), Registry.Sound (.withBuiltins .own) ∧
      Stage.new? (.withBuiltins .own) {} {} .own = some start ∧
      Request.Steps ⟨fun _ => True, Registry.Sound⟩ (.start text (some .zero) true, start)
        (.done 1, begun) ∧
      begun.registry = .withBuiltins .own ∧
      (begun.course text (some .zero)).length = Session.yieldEvery ∧
      ∃ act ∈ Stance.acting .own begun.player.config.unknownTags (begun.course text (some .zero)),
        act.suspends := by
  have hrun : ((Stage.new? (.withBuiltins .own) ({} : Clock) {} .own).bind fun start =>
      ((Request.start (String.ofList (List.replicate 64 'a')) (some .zero) true).run? start).map
        fun begun => (begun.1,
          (begun.2.course (String.ofList (List.replicate 64 'a')) (some .zero)).length,
          (begun.2.course (String.ofList (List.replicate 64 'a')) (some .zero)).any fun step =>
            step.1.isDue && step.1.tempo.speed.isNonPositive)) = some (1, 64, true) := by
    decide +kernel
  simp only [Option.bind_eq_some_iff, Option.map_eq_some_iff, Prod.mk.injEq, List.any_eq_true,
    Bool.and_eq_true] at hrun
  obtain ⟨start, hnew, ⟨id, begun⟩, hbegun, rfl, hlength, step, hstep, hdue⟩ := hrun
  have hsound := Registry.sound_withBuiltins .own
  have hsteps := Request.steps_of_run? ⟨fun _ => True, Registry.Sound⟩ hbegun
  have hregistry : begun.registry = .withBuiltins .own := registry_of_start hnew hbegun
  obtain ⟨-, -, hwindow⟩ :=
    History.suspends_iff hsound (fun _ hr => hr) hnew .begin hsteps hregistry
  obtain ⟨steps, hall, -, hiff⟩ := hwindow 0 (Nat.le_of_eq hlength.symm)
  have hwhole : _ ≤ Session.yieldEvery := Nat.le_of_eq hlength
  rw [List.drop_zero, List.take_of_length_le hwhole] at hall
  subst hall
  exact ⟨_, start, begun, hsound, hnew, hsteps, hregistry, hlength,
    hiff.mpr ⟨step, hstep, .inl hdue⟩⟩

/-- A speed that is not a number gives neither delays nor yields: as many steps as go by between
yields, and the session is over in its first turn. -/
theorem Stage.History.completes_without_suspension :
    ∃ (text : String) (start begun : Stage Clock),
      Stage.new? (.withBuiltins .own) {} {} .own = some start ∧
      Request.Steps ⟨fun _ => True, Registry.Sound⟩ (.start text (some .nan) true, start)
        (.done 1, begun) ∧
      begun.registry = .withBuiltins .own ∧
      (begun.course text (some .nan)).length = Session.yieldEvery ∧
      (∀ act ∈ Stance.acting .own begun.player.config.unknownTags (begun.course text (some .nan)),
        act.suspends = false) ∧
      (begun.turn false 0).player.state = .completed := by
  have hrun : ((Stage.new? (.withBuiltins .own) ({} : Clock) {} .own).bind fun start =>
      ((Request.start (String.ofList (List.replicate 64 'a')) (some .nan) true).run? start).map
        fun begun => (begun.1,
          (begun.2.course (String.ofList (List.replicate 64 'a')) (some .nan)).length,
          (Stance.acting .own begun.2.player.config.unknownTags
            (begun.2.course (String.ofList (List.replicate 64 'a')) (some .nan))).all
              fun act => !act.suspends,
          (begun.2.turn false 0).player.state)) = some (1, 64, true, .completed) := by
    decide +kernel
  simp only [Option.bind_eq_some_iff, Option.map_eq_some_iff, Prod.mk.injEq, List.all_eq_true,
    Bool.not_eq_true'] at hrun
  obtain ⟨start, hnew, ⟨id, begun⟩, hbegun, rfl, hlength, hquiet, hstate⟩ := hrun
  have hregistry : begun.registry = .withBuiltins .own := registry_of_start hnew hbegun
  exact ⟨_, start, begun, hnew, Request.steps_of_run? _ hbegun, hregistry, hlength, hquiet, hstate⟩

end TextReveal
