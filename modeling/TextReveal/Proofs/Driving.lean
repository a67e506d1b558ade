import TextReveal.Player.Stage
/-!
What a session goes through in a turn, as a relation with a case for each thing that can come next,
and what a turn leaves alone: the registry, the sessions themselves, and all that belongs to the
owner.
-/
namespace TextReveal.Stage
variable {σ : Type}

/-- What no session changes. -/
structure Keeps (st st' : Stage σ) : Prop where
  registry : st'.registry = st.registry
  jobs : st'.jobs = st.jobs
  started : st'.started = st.started
  active : st'.player.active = st.player.active
  config : st'.player.config = st.player.config

theorem Keeps.refl (st : Stage σ) : Keeps st st := ⟨rfl, rfl, rfl, rfl, rfl⟩

theorem Keeps.trans {a b c : Stage σ} (h : Keeps a b) (h' : Keeps b c) : Keeps a c :=
  ⟨h'.registry.trans h.registry, h'.jobs.trans h.jobs, h'.started.trans h.started,
    h'.active.trans h.active, h'.config.trans h.config⟩

theorem Keeps.of_right {a b c : Stage σ} (h : Keeps a c) (h' : Keeps b c) : Keeps a b :=
  ⟨h'.registry.symm.trans h.registry, h'.jobs.symm.trans h.jobs, h'.started.symm.trans h.started,
    h'.active.symm.trans h.active, h'.config.symm.trans h.config⟩

/-- The notes of all listeners. -/
theorem fire_eq (st : Stage σ) (payload : String) :
    st.fire payload =
      { st with journal := st.journal ++ (st.listeners.ids.map (.heard · payload)).toArray } := by
  unfold fire
  generalize st.listeners.ids = ids
  induction ids generalizing st with
  | nil => simp
  | cons id ids ih => rw [List.foldl_cons, ih]; simp [note]

theorem keeps_signal (st : Stage σ) (s : Signal) : Keeps st (st.signal s) := by
  cases s with
  | called call => exact ⟨rfl, rfl, rfl, rfl, rfl⟩
  | action hub payload =>
    rw [signal]
    split
    · rw [fire_eq]
      exact ⟨rfl, rfl, rfl, rfl, rfl⟩
    · exact ⟨rfl, rfl, rfl, rfl, rfl⟩

theorem keeps_perform (st : Stage σ) (e : Effect) : Keeps st (st.perform e) := by
  cases e with
  | frame => exact ⟨rfl, rfl, rfl, rfl, rfl⟩
  | publish => exact ⟨rfl, rfl, rfl, rfl, rfl⟩
  | setState => exact ⟨rfl, rfl, rfl, rfl, rfl⟩
  | complete session =>
    rw [perform, runCallback]
    split <;> exact ⟨rfl, rfl, rfl, rfl, rfl⟩
  | signal s => exact keeps_signal st s

theorem clock_perform (st : Stage σ) (e : Effect) : (st.perform e).clock = st.clock := by
  cases e with
  | complete session =>
    rw [perform, runCallback]
    split <;> rfl
  | signal s =>
    cases s with
    | called call => rfl
    | action hub payload =>
      rw [perform, signal]
      split
      · rw [fire_eq]
        rfl
      · rfl
  | _ => rfl

theorem keeps_foldl_perform (st : Stage σ) (effects : List Effect) :
    Keeps st (effects.foldl perform st) := by
  induction effects generalizing st with
  | nil => exact .refl st
  | cons e effects ih => exact (keeps_perform st e).trans (ih _)

theorem keeps_foldl_signal (st : Stage σ) (list : List Signal) :
    Keeps st (list.foldl signal st) := by
  induction list generalizing st with
  | nil => exact .refl st
  | cons s list ih => exact (keeps_signal st s).trans (ih _)

theorem keeps_render (st : Stage σ) (source : String) (tags : List Tag) (speed : Number.Single) :
    Keeps st (st.render source tags speed).2 := keeps_foldl_signal st _

/-- How a session that is launched now begins. -/
def opening (st : Stage σ) (text : String) (speed : Option Number.Single) : Status :=
  .ready (.start (st.started + 1) st.player.config.unknownTags text (Tag.lex text)
    (speed.getD st.player.config.defaultSpeed))

theorem jobs_launch (st : Stage σ) (text : String) (speed : Option Number.Single)
    (callback : Bool) : (st.launch text speed callback).2.jobs =
      st.jobs ++ [⟨st.started + 1, st.opening text speed, false⟩] := rfl

variable [TimeBase σ]

/-- Whether the clock fails a session, not cancelled, on the way to its next stop. -/
def driveFails (throughYields : Bool) : Session → Nat → Stage σ → Bool
  | .ended _, _, _ | .crashed, _, _ => false
  | .perform effect next, share, st => driveFails throughYields next share (st.perform effect)
  | .resolve name next, share, st =>
    driveFails throughYields (next (st.registry.get? name)) share st
  | .check next, share, st => driveFails throughYields (next false) share st
  | .yield next, _, st => throughYields && driveFails throughYields next waitsPerTurn st
  | .breathe next, share, st =>
    if 0 < share then driveFails throughYields next share st
    else throughYields && driveFails throughYields next waitsPerTurn st
  | .sleep seconds next, share, st =>
    let (answer, clock) := TimeBase.request st.clock seconds
    let st := { st with clock }.note (.asked seconds)
    match answer with
    | .elapsed => driveFails throughYields (next .elapsed) (st.spend share seconds) st
    | .failed _ => true
    | .pending => false

/-- Whether the clock fails it when it goes on from where it stopped. -/
def resumeFails (throughYields : Bool) : Status → Stage σ → Bool
  | .ready s, st => driveFails throughYields s waitsPerTurn st
  | .asleep seconds next, st =>
    let (answer, clock) := TimeBase.again st.clock seconds
    let st := { st with clock }
    match answer with
    | .elapsed => driveFails throughYields (next .elapsed) (st.spend waitsPerTurn seconds) st
    | .failed _ => true
    | .pending => false
  | _, _ => false

/-- What a session goes through on the way to its next stop, from one stage to another, and whether
it comes to a wait that fails. How much is left of the share of its turn only decides where it stops
to breathe. -/
inductive Drives (pace : Pace) : Session → Stage σ → Bool → Status × Stage σ → Prop
  | ended {outcome : Outcome} {st : Stage σ} :
    Drives pace (.ended outcome) st false (.ended outcome, st)
  | crashed {st : Stage σ} : Drives pace .crashed st false (.crashed, st)
  | perform {e : Effect} {next : Session} {st : Stage σ} {fails : Bool} {after : Status × Stage σ}
    (h : Drives pace next (st.perform e) fails after) : Drives pace (.perform e next) st fails after
  | resolve {name : String} {next : Option Handler → Session} {st : Stage σ} {fails : Bool}
    {after : Status × Stage σ} (h : Drives pace (next (st.registry.get? name)) st fails after) :
    Drives pace (.resolve name next) st fails after
  | check {next : Bool → Session} {st : Stage σ} {fails : Bool} {after : Status × Stage σ}
    (h : Drives pace (next pace.cancelled) st fails after) : Drives pace (.check next) st fails after
  | yield {next : Session} {st : Stage σ} {fails : Bool} {after : Status × Stage σ}
    (h : Drives pace next st fails after) : Drives pace (.yield next) st fails after
  | yields {next : Session} {st : Stage σ} (hstops : pace.throughYields = false) :
    Drives pace (.yield next) st false (.ready next, st)
  | breathe {next : Session} {st : Stage σ} {fails : Bool} {after : Status × Stage σ}
    (h : Drives pace next st fails after) : Drives pace (.breathe next) st fails after
  | breathes {next : Session} {st : Stage σ} (hstops : pace.throughYields = false) :
    Drives pace (.breathe next) st false (.ready next, st)
  | elapsed {seconds : Number.Single} {next : Wake → Session} {st : Stage σ} {clock : σ}
    {fails : Bool} {after : Status × Stage σ}
    (hanswer : TimeBase.request st.clock seconds = (.elapsed, clock))
    (h : Drives pace (next .elapsed) ({ st with clock }.note (.asked seconds)) fails after) :
    Drives pace (.sleep seconds next) st fails after
  | failed {seconds : Number.Single} {next : Wake → Session} {st : Stage σ} {clock : σ}
    {reason : String} {fails : Bool} {after : Status × Stage σ}
    (hanswer : TimeBase.request st.clock seconds = (.failed reason, clock))
    (h : Drives pace (next (.failed reason)) ({ st with clock }.note (.asked seconds)) fails
      after) : Drives pace (.sleep seconds next) st true after
  | cancelled {seconds : Number.Single} {next : Wake → Session} {st : Stage σ} {clock : σ}
    {fails : Bool} {after : Status × Stage σ}
    (hanswer : TimeBase.request st.clock seconds = (.pending, clock))
    (hcancelled : pace.cancelled = true)
    (h : Drives pace (next .cancelled) ({ st with clock }.note (.asked seconds)) fails after) :
    Drives pace (.sleep seconds next) st fails after
  | asleep {seconds : Number.Single} {next : Wake → Session} {st : Stage σ} {clock : σ}
    (hanswer : TimeBase.request st.clock seconds = (.pending, clock))
    (hfree : pace.cancelled = false) : Drives pace (.sleep seconds next) st false
      (.asleep seconds next, { st with clock }.note (.asked seconds))

/-- The same of a session that has stopped. -/
inductive Resumes (pace : Pace) : Status → Stage σ → Bool → Status × Stage σ → Prop
  | ended {outcome : Outcome} {st : Stage σ} :
    Resumes pace (.ended outcome) st false (.ended outcome, st)
  | crashed {st : Stage σ} : Resumes pace .crashed st false (.crashed, st)
  | ready {s : Session} {st : Stage σ} {fails : Bool} {after : Status × Stage σ}
    (h : Drives pace s st fails after) : Resumes pace (.ready s) st fails after
  | cancelled {seconds : Number.Single} {next : Wake → Session} {st : Stage σ} {fails : Bool}
    {after : Status × Stage σ} (hcancelled : pace.cancelled = true)
    (h : Drives pace (next .cancelled) st fails after) :
    Resumes pace (.asleep seconds next) st fails after
  | elapsed {seconds : Number.Single} {next : Wake → Session} {st : Stage σ} {clock : σ}
    {fails : Bool} {after : Status × Stage σ} (hfree : pace.cancelled = false)
    (hanswer : TimeBase.again st.clock seconds = (.elapsed, clock))
    (h : Drives pace (next .elapsed) { st with clock } fails after) :
    Resumes pace (.asleep seconds next) st fails after
  | failed {seconds : Number.Single} {next : Wake → Session} {st : Stage σ} {clock : σ}
    {reason : String} {fails : Bool} {after : Status × Stage σ} (hfree : pace.cancelled = false)
    (hanswer : TimeBase.again st.clock seconds = (.failed reason, clock))
    (h : Drives pace (next (.failed reason)) { st with clock } fails after) :
    Resumes pace (.asleep seconds next) st true after
  | asleep {seconds : Number.Single} {next : Wake → Session} {st : Stage σ} {clock : σ}
    (hfree : pace.cancelled = false)
    (hanswer : TimeBase.again st.clock seconds = (.pending, clock)) :
    Resumes pace (.asleep seconds next) st false (.asleep seconds next, { st with clock })

/-- Of a session that is not cancelled, `driveFails` tells whether a wait fails. -/
theorem exists_drives (pace : Pace) (s : Session) (share : Nat) (st : Stage σ) :
    ∃ fails, (pace.cancelled = false → driveFails pace.throughYields s share st = fails) ∧
      Drives pace s st fails (drive pace s share st) := by
  -- Along the nodes; what is left of the share is any number, as a wait or a yield changes it.
  induction s generalizing share st with
  | ended outcome => exact ⟨false, fun _ => rfl, .ended⟩
  | crashed => exact ⟨false, fun _ => rfl, .crashed⟩
  | perform e next ih =>
    obtain ⟨fails, hfails, h⟩ := ih share (st.perform e)
    exact ⟨fails, hfails, .perform h⟩
  | resolve name next ih =>
    obtain ⟨fails, hfails, h⟩ := ih _ share st
    exact ⟨fails, hfails, .resolve h⟩
  | check next ih =>
    obtain ⟨fails, hfails, h⟩ := ih pace.cancelled share st
    refine ⟨fails, fun hfree => ?_, .check h⟩
    rw [driveFails, ← hfails hfree, hfree]
  | yield next ih =>
    rw [drive, driveFails]
    cases hthrough : pace.throughYields with
    | true =>
      obtain ⟨fails, hfails, h⟩ := ih waitsPerTurn st
      rw [hthrough] at hfails
      exact ⟨fails, hfails, .yield h⟩
    | false => exact ⟨false, fun _ => rfl, .yields hthrough⟩
  | breathe next ih =>
    rw [drive, driveFails]
    split
    · obtain ⟨fails, hfails, h⟩ := ih share st
      exact ⟨fails, hfails, .breathe h⟩
    · cases hthrough : pace.throughYields with
      | true =>
        obtain ⟨fails, hfails, h⟩ := ih waitsPerTurn st
        rw [hthrough] at hfails
        exact ⟨fails, hfails, .breathe h⟩
      | false => exact ⟨false, fun _ => rfl, .breathes hthrough⟩
  | sleep seconds next ih =>
    simp only [drive, driveFails]
    rcases hanswer : TimeBase.request st.clock seconds with ⟨answer, clock⟩
    cases answer with
    | elapsed =>
      obtain ⟨fails, hfails, h⟩ := ih .elapsed _ _
      exact ⟨fails, hfails, .elapsed hanswer h⟩
    | failed reason =>
      obtain ⟨fails, -, h⟩ := ih (.failed reason) share _
      exact ⟨true, fun _ => rfl, .failed hanswer h⟩
    | pending =>
      cases hcancelled : pace.cancelled with
      | true =>
        obtain ⟨fails, -, h⟩ := ih .cancelled share _
        refine ⟨fails, fun hfree => ?_, .cancelled hanswer hcancelled h⟩
        cases hfree
      | false => exact ⟨false, fun _ => rfl, .asleep hanswer hcancelled⟩

theorem exists_resumes (pace : Pace) (status : Status) (st : Stage σ) :
    ∃ fails, (pace.cancelled = false → resumeFails pace.throughYields status st = fails) ∧
      Resumes pace status st fails (resume pace status st) := by
  cases status with
  | ended outcome => exact ⟨false, fun _ => rfl, .ended⟩
  | crashed => exact ⟨false, fun _ => rfl, .crashed⟩
  | ready s =>
    obtain ⟨fails, hfails, h⟩ := exists_drives pace s waitsPerTurn st
    exact ⟨fails, hfails, .ready h⟩
  | asleep seconds next =>
    simp only [resume, resumeFails]
    cases hcancelled : pace.cancelled with
    | true =>
      obtain ⟨fails, -, h⟩ := exists_drives pace (next .cancelled) waitsPerTurn st
      refine ⟨fails, fun hfree => ?_, .cancelled hcancelled h⟩
      cases hfree
    | false =>
      rw [if_neg Bool.false_ne_true]
      rcases hanswer : TimeBase.again st.clock seconds with ⟨answer, clock⟩
      cases answer with
      | elapsed =>
        obtain ⟨fails, hfails, h⟩ := exists_drives pace (next .elapsed) _ { st with clock }
        exact ⟨fails, fun _ => hfails hcancelled, .elapsed hcancelled hanswer h⟩
      | failed reason =>
        obtain ⟨fails, -, h⟩ := exists_drives pace (next (.failed reason)) _ { st with clock }
        exact ⟨true, fun _ => rfl, .failed hcancelled hanswer h⟩
      | pending => exact ⟨false, fun _ => rfl, .asleep hcancelled hanswer⟩

/-- A session that is not cancelled. -/
theorem resumes_free (through : Bool) (status : Status) (st : Stage σ) :
    Resumes ⟨false, through⟩ status st (resumeFails through status st)
      (resume ⟨false, through⟩ status st) := by
  obtain ⟨fails, hfails, h⟩ := exists_resumes ⟨false, through⟩ status st
  exact hfails rfl ▸ h

section Preserved
variable {R : Stage σ → Stage σ → Prop} {pace : Pace} {st : Stage σ} {fails : Bool}
  {after : Status × Stage σ}

/-- What performing an effect and asking the clock preserve, a drive preserves. -/
theorem Drives.preserves {s : Session} (hrefl : ∀ st, R st st)
    (htrans : ∀ {a b c}, R a b → R b c → R a c) (hperform : ∀ st e, R st (st.perform e))
    (hask : ∀ (st : Stage σ) (clock : σ) seconds, R st ({ st with clock }.note (.asked seconds)))
    (h : Drives pace s st fails after) : R st after.2 := by
  induction h with
  | ended => exact hrefl _
  | crashed => exact hrefl _
  | perform _ ih => exact htrans (hperform _ _) ih
  | resolve _ ih => exact ih
  | check _ ih => exact ih
  | yield _ ih => exact ih
  | yields => exact hrefl _
  | breathe _ ih => exact ih
  | breathes => exact hrefl _
  | elapsed _ _ ih => exact htrans (hask _ _ _) ih
  | failed _ _ ih => exact htrans (hask _ _ _) ih
  | cancelled _ _ _ ih => exact htrans (hask _ _ _) ih
  | asleep => exact hask _ _ _

theorem Resumes.preserves {status : Status} (hrefl : ∀ st, R st st)
    (htrans : ∀ {a b c}, R a b → R b c → R a c) (hperform : ∀ st e, R st (st.perform e))
    (hask : ∀ (st : Stage σ) (clock : σ) seconds, R st ({ st with clock }.note (.asked seconds)))
    (hclock : ∀ (st : Stage σ) (clock : σ), R st { st with clock })
    (h : Resumes pace status st fails after) : R st after.2 := by
  cases h with
  | ended => exact hrefl st
  | crashed => exact hrefl st
  | ready h => exact h.preserves hrefl htrans hperform hask
  | cancelled _ h => exact h.preserves hrefl htrans hperform hask
  | elapsed _ _ h => exact htrans (hclock st _) (h.preserves hrefl htrans hperform hask)
  | failed _ _ h => exact htrans (hclock st _) (h.preserves hrefl htrans hperform hask)
  | asleep => exact hclock st _

theorem resume_preserves (hrefl : ∀ st, R st st)
    (htrans : ∀ {a b c}, R a b → R b c → R a c) (hperform : ∀ st e, R st (st.perform e))
    (hask : ∀ (st : Stage σ) (clock : σ) seconds, R st ({ st with clock }.note (.asked seconds)))
    (hclock : ∀ (st : Stage σ) (clock : σ), R st { st with clock })
    (pace : Pace) (status : Status) (st : Stage σ) : R st (resume pace status st).2 := by
  obtain ⟨fails, -, h⟩ := exists_resumes pace status st
  exact h.preserves hrefl htrans hperform hask hclock

end Preserved

theorem keeps_resume (pace : Pace) (status : Status) (st : Stage σ) :
    Keeps st (resume pace status st).2 :=
  resume_preserves Keeps.refl (fun h h' => h.trans h') keeps_perform
    (fun _ _ _ => ⟨rfl, rfl, rfl, rfl, rfl⟩) (fun _ _ => ⟨rfl, rfl, rfl, rfl, rfl⟩) pace status st

end TextReveal.Stage
