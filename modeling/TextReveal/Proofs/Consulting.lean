import TextReveal.Proofs.Composing
import TextReveal.Proofs.Scenes
import TextReveal.Proofs.Using
/-!
The handlers that a stage consults. A session looks up the names of its text and no others, so what
happens on a stage depends on its registry only by the handlers for these, with every call that its
owner may make and every turn that a session may get.
-/
namespace TextReveal

namespace Session

/-- A session that looks up no names but these, whatever it is told. -/
def Within (names : List String) : Session → Prop
  | .ended _ | .crashed => True
  | .perform _ next | .yield next | .breathe next => next.Within names
  | .resolve name next => name ∈ names ∧ ∀ h, (next h).Within names
  | .check next => ∀ cancelled, (next cancelled).Within names
  | .sleep _ next => ∀ wake, (next wake).Within names

theorem within_abandon {names : List String} {id : Nat} : (abandon id).Within names := by
  intro cancelled
  cases cancelled <;> trivial

theorem within_guarded {names : List String} {id : Nat} {next : Unit → Session}
    (h : (next ()).Within names) : (guarded id next).Within names := by
  intro cancelled
  cases cancelled with
  | true => exact within_abandon
  | false => exact h

theorem Composed.within {names : List String} {id : Nat} {woken : Bool} {s : Session}
    (h : Composed id (fun _ => True) (· ∈ names) woken s) : s.Within names := by
  induction h with
  | complete => trivial
  | abandon => exact within_abandon
  | crashed => trivial
  | frame _ ih => exact ih
  | reveal _ ih => exact ih
  | signal _ ih => exact ih
  | resolve hname _ ih => exact ⟨hname, fun found => ih found fun _ _ => trivial⟩
  | guarded _ ih => exact within_guarded ih
  | yield _ ih => exact within_guarded ih
  | poised _ ih => exact within_guarded ih
  | sleep _ _ ih => exact ih

theorem within_start {names : List String} {id : Nat} {policy : UnknownTags} {source : String}
    {tags : List Tag} (h : ∀ t ∈ tags, t.name ∈ names) (speed : Number.Single) :
    (start id policy source tags speed).Within names :=
  (composed_reveal h policy source.toList 0 0 0 _ false).within

end Session

def Status.Within (names : List String) : Status → Prop
  | .ready s => s.Within names
  | .asleep _ next => ∀ wake, (next wake).Within names
  | .ended _ | .crashed => True

def Ticket.Within (names : List String) (t : Ticket) : Prop :=
  ∀ tag ∈ t.tags, tag.name ∈ names

namespace Stage
variable {σ : Type}

/-- The same stage with another registry. -/
def under (r : Registry) (st : Stage σ) : Stage σ := { st with registry := r }

/-- Whoever is on the stage looks up no names but these. -/
structure Within (names : List String) (st : Stage σ) : Prop where
  jobs : ∀ j ∈ st.jobs, j.status.Within names
  active : ∀ t ∈ st.player.active, t.Within names

variable {names : List String} {r : Registry} {st : Stage σ}

theorem Within.of_keeps {st' : Stage σ} (h : st.Within names) (hkeeps : Keeps st st') :
    st'.Within names :=
  ⟨hkeeps.jobs ▸ h.jobs, hkeeps.active ▸ h.active⟩

theorem Within.launch (h : st.Within names) {text : String} (htext : usedNames text ⊆ names)
    (speed : Option Number.Single) (callback : Bool) :
    (st.launch text speed callback).2.Within names := by
  have htags : ∀ t ∈ Tag.lex text, t.name ∈ names := fun t ht => htext (name_mem_usedNames ht)
  constructor
  · rw [jobs_launch]
    intro j hj
    obtain hj | hj := List.mem_append.mp hj
    · exact h.jobs j hj
    · rw [List.mem_singleton.mp hj]
      exact Session.within_start htags _
  · rintro _ ⟨⟩
    exact htags

theorem fire_under (st : Stage σ) (payload : String) : (st.under r).fire payload = (st.fire payload).under r := by
  rw [fire_eq, fire_eq]
  rfl

theorem signal_under (s : Signal) : (st.under r).signal s = (st.signal s).under r := by
  cases s with
  | called call => rfl
  | action hub payload =>
    simp only [signal]
    split
    · rw [if_pos ‹_›]
      exact fire_under (st.note (.fired hub payload)) payload
    · rw [if_neg ‹_›]
      rfl

theorem perform_under (e : Effect) : (st.under r).perform e = (st.perform e).under r := by
  cases e with
  | frame => rfl
  | publish => rfl
  | setState => rfl
  | complete session =>
    simp only [perform, runCallback]
    split
    · rw [if_pos ‹_›]
      rfl
    · rw [if_neg ‹_›]
  | signal s => exact signal_under s

theorem foldl_signal_under (list : List Signal) :
    list.foldl signal (st.under r) = (list.foldl signal st).under r := by
  induction list generalizing st with
  | nil => rfl
  | cons s list ih => rw [List.foldl_cons, List.foldl_cons, signal_under, ih]

theorem render_under {source : String} {tags : List Tag}
    (h : ∀ t ∈ tags, st.registry.get? t.name = r.get? t.name) (speed : Number.Single) :
    (st.under r).render source tags speed =
      ((st.render source tags speed).1, (st.render source tags speed).2.under r) := by
  have hsame : renderInstant st.registry st.player.config.unknownTags source tags speed =
      renderInstant r st.player.config.unknownTags source tags speed :=
    Registry.walk_congr h ..
  simp only [render, hsame, ← foldl_signal_under]
  rfl

variable [TimeBase σ]

theorem drive_under {pace : Pace} {s : Session} (hs : s.Within names)
    (h : st.registry.AgreeOn names r) (share : Nat) :
    drive pace s share (st.under r) =
      ((drive pace s share st).1, (drive pace s share st).2.under r) := by
  -- Only `resolve` consults the registry, and only about one of the names.
  induction s generalizing share st with
  | ended outcome => rfl
  | crashed => rfl
  | perform e next ih =>
    rw [drive, drive, perform_under]
    exact ih hs ((keeps_perform st e).registry ▸ h) share
  | resolve name next ih =>
    rw [drive, drive, h name hs.1]
    exact ih _ (hs.2 _) h share
  | check next ih => exact ih _ (hs _) h share
  | yield next ih =>
    simp only [drive]
    split
    · exact ih hs h _
    · rfl
  | breathe next ih =>
    simp only [drive]
    split
    · exact ih hs h _
    · split
      · exact ih hs h _
      · rfl
  | sleep seconds next ih =>
    have hasked : ({ st with clock := (TimeBase.request st.clock seconds).2 }.note
        (.asked seconds)).registry.AgreeOn names r := h
    simp only [drive, show (st.under r).clock = st.clock from rfl]
    split
    · exact ih _ (hs _) hasked _
    · exact ih _ (hs _) hasked _
    · split
      · exact ih _ (hs _) hasked _
      · rfl

theorem Drives.within {pace : Pace} {s : Session} {fails : Bool} {after : Status × Stage σ}
    (h : Drives pace s st fails after) (hs : s.Within names) : after.1.Within names := by
  induction h with
  | ended => trivial
  | crashed => trivial
  | perform _ ih => exact ih hs
  | resolve _ ih => exact ih (hs.2 _)
  | check _ ih => exact ih (hs _)
  | yield _ ih => exact ih hs
  | yields => exact hs
  | breathe _ ih => exact ih hs
  | breathes => exact hs
  | elapsed _ _ ih => exact ih (hs _)
  | failed _ _ ih => exact ih (hs _)
  | cancelled _ _ _ ih => exact ih (hs _)
  | asleep => exact hs

theorem resume_under {pace : Pace} {status : Status} (hstatus : status.Within names)
    (h : st.registry.AgreeOn names r) :
    resume pace status (st.under r) =
      ((resume pace status st).1, (resume pace status st).2.under r) := by
  cases status with
  | ready s => exact drive_under hstatus h _
  | ended outcome => rfl
  | crashed => rfl
  | asleep seconds next =>
    have hagain : ({ st with clock := (TimeBase.again st.clock seconds).2 } :
        Stage σ).registry.AgreeOn names r := h
    simp only [resume, show (st.under r).clock = st.clock from rfl]
    split
    · exact drive_under (hstatus _) h _
    · split
      · exact drive_under (hstatus _) hagain _
      · exact drive_under (hstatus _) hagain _
      · rfl

theorem Resumes.within {pace : Pace} {status : Status} {fails : Bool} {after : Status × Stage σ}
    (h : Resumes pace status st fails after) (hstatus : status.Within names) :
    after.1.Within names := by
  cases h with
  | ended => trivial
  | crashed => trivial
  | ready h => exact h.within hstatus
  | cancelled _ h => exact h.within (hstatus _)
  | elapsed _ _ h => exact h.within (hstatus _)
  | failed _ _ h => exact h.within (hstatus _)
  | asleep => exact hstatus

theorem turn_under (hst : st.Within names) (h : st.registry.AgreeOn names r) (through : Bool)
    (index : Nat) : (st.under r).turn through index = (st.turn through index).under r := by
  cases hj : st.jobs[index]? with
  | none =>
    have hj' : (st.under r).jobs[index]? = none := hj
    simp only [turn, hj, hj']
  | some j =>
    have hj' : (st.under r).jobs[index]? = some j := hj
    have hresumed : resume ⟨j.cancelled, through⟩ j.status (st.under r) = _ :=
      resume_under (hst.jobs j (List.mem_of_getElem? hj)) h
    rw [turn_eq hj, turn_eq hj', hresumed]
    rfl

theorem registry_turn (st : Stage σ) (through : Bool) (index : Nat) :
    (st.turn through index).registry = st.registry := by
  cases hj : st.jobs[index]? with
  | none => simp [turn, hj]
  | some j =>
    rw [turn_eq hj]
    exact (keeps_resume _ j.status st).registry

theorem within_turn (hst : st.Within names) (through : Bool) (index : Nat) :
    (st.turn through index).Within names := by
  refine ⟨fun j' hj' => ?_, (active_turn st through index).symm ▸ hst.active⟩
  cases hj : st.jobs[index]? with
  | none =>
    simp only [turn, hj] at hj'
    exact hst.jobs j' hj'
  | some j =>
    rw [turn_eq hj] at hj'
    obtain hmem | rfl := List.mem_or_eq_of_mem_set hj'
    · exact hst.jobs j' hmem
    · obtain ⟨fails, -, hresumes⟩ := exists_resumes ⟨j.cancelled, through⟩ j.status st
      exact hresumes.within (hst.jobs j (List.mem_of_getElem? hj))

end Stage

namespace Request
variable {α σ : Type}

/-- A request that is about no names but these, as long as the active session is. -/
def Within (names : List String) : Request α → Prop
  | .done _ => True
  | .readState next => ∀ state, (next state).Within names
  | .take next | .cancel next => ∀ session, (∀ t ∈ session, t.Within names) →
    (next session).Within names
  | .await _ next => ∀ outcome, (next outcome).Within names
  | .render _ tags _ next => (∀ t ∈ tags, t.name ∈ names) ∧ ∀ shown, (next shown).Within names
  | .launch text _ _ next => usedNames text ⊆ names ∧ ∀ id, (next id).Within names
  | .perform _ next => next.Within names

variable {names : List String} {r : Registry} {st st' : Stage σ} {request request' : Request α}

theorem within_performAll {next : Request α} (effects : List Effect) (h : next.Within names) :
    (performAll effects next).Within names := by
  induction effects with
  | nil => exact h
  | cons e effects ih => exact ih

theorem within_halt {next : Bool → Request α} (h : ∀ stopped, (next stopped).Within names) :
    (halt next).Within names := by
  rintro before (_ | session) -
  · exact h false
  · intro outcome
    dsimp only
    split
    · exact within_performAll _ (h true)
    · exact h false

theorem within_skip : Request.skip.Within names := by
  intro before
  dsimp only
  split
  · trivial
  · rintro (_ | session) hsession
    · trivial
    · rintro (_ | _)
      · trivial
      · exact ⟨hsession session rfl, fun _ => within_performAll _ trivial⟩

theorem within_join : Request.join.Within names := by
  rintro (_ | session) -
  · trivial
  · exact fun _ => trivial

open Stage

/-- A step of a request is the same under a registry with the same handlers for its names. -/
theorem step?_under (hrequest : request.Within names) (h : st.registry.AgreeOn names r) :
    request.step? (st.under r) =
      (request.step? st).map fun after => (after.1, after.2.under r) := by
  cases request with
  | done => rfl
  | readState => rfl
  | take => rfl
  | cancel next =>
    simp only [step?, show (st.under r).player = st.player from rfl]
    split <;> rfl
  | await session next =>
    simp only [step?, show (st.under r).outcome? session.id = st.outcome? session.id from rfl,
      Option.map_map]
    rfl
  | render source tags speed next =>
    simp only [step?, show (st.under r).player = st.player from rfl,
      render_under fun t ht => h _ (hrequest.1 t ht), Option.map_some]
  | launch => rfl
  | perform e next => simp only [step?, perform_under, Option.map_some]

theorem Within.step? (hrequest : request.Within names) (hst : st.Within names)
    (h : request.step? st = some (request', st')) :
    request'.Within names ∧ st'.Within names ∧ st'.registry = st.registry := by
  have hletGo : Stage.Within names { st with player := { st.player with active := none } } :=
    ⟨hst.jobs, by simp⟩
  -- Only a launch brings a new session; whatever else is done, the others stay or go.
  cases request with
  | done => cases h
  | readState next =>
    cases h
    exact ⟨hrequest _, hst, rfl⟩
  | take next =>
    cases h
    exact ⟨hrequest _ hst.active, hletGo, rfl⟩
  | cancel next =>
    simp only [Request.step?] at h
    split at h
    · cases h
      exact ⟨hrequest none (by simp), hst, rfl⟩
    · rename_i session hactive
      cases h
      refine ⟨hrequest _ (hactive ▸ hst.active), ⟨fun j' hj' => ?_, hletGo.active⟩, rfl⟩
      obtain ⟨j, hj, rfl⟩ := List.mem_map.mp hj'
      split
      · exact hst.jobs j hj
      · exact hst.jobs j hj
  | await session next =>
    obtain ⟨outcome, -, hafter⟩ := Option.map_eq_some_iff.mp h
    cases hafter
    exact ⟨hrequest _, ⟨fun j hj => hst.jobs j (List.mem_of_mem_filter hj), hst.active⟩, rfl⟩
  | render source tags speed next =>
    cases h
    have hkeeps := keeps_render st source tags (speed.getD st.player.config.defaultSpeed)
    exact ⟨hrequest.2 _, hst.of_keeps hkeeps, hkeeps.registry⟩
  | launch text speed callback next =>
    cases h
    exact ⟨hrequest.2 _, hst.launch hrequest.1 speed callback, rfl⟩
  | perform e next =>
    cases h
    exact ⟨hrequest, hst.of_keeps (keeps_perform st e), (keeps_perform st e).registry⟩

end Request

/-- The names that a call brings onto a stage. -/
def Command.usedNames : Command → List String
  | start text _ _ | setInstant text => TextReveal.usedNames text
  | skip | stop | join => []

theorem Command.within_request {names : List String} {c : Command} (h : c.usedNames ⊆ names) :
    c.request.Within names := by
  cases c with
  | start text speed callback =>
    show Request.Within names (.halt fun _ => .launch text speed callback .done)
    refine Request.within_halt ?_
    exact fun _ => ⟨h, fun _ => trivial⟩
  | skip => exact Request.within_skip
  | stop =>
    refine Request.within_halt ?_
    exact fun _ => trivial
  | setInstant text =>
    show Request.Within names (.halt fun _ => .render text (Tag.lex text) none fun shown =>
      .performAll [.frame shown, .setState .completed] (.done ()))
    refine Request.within_halt ?_
    exact fun _ => ⟨fun t ht => h (name_mem_usedNames ht),
      fun _ => Request.within_performAll _ trivial⟩
  | join => exact Request.within_join

/-- The same change, but for registries with the same handlers for these names. -/
inductive Change.AgreeOn {σ : Type} (names : List String) : Change σ → Change σ → Prop
  | turn (throughYields : Bool) (index : Nat) :
    AgreeOn names (.turn throughYields index) (.turn throughYields index)
  | clock (clock : σ) : AgreeOn names (.clock clock) (.clock clock)
  | registry {r r' : Registry} (h : r.AgreeOn names r') :
    AgreeOn names (.registry r) (.registry r')

/-- The same input but for registries, with calls that use no names but these. -/
inductive Input.AgreeOn {σ : Type} (names : List String) : Input σ → Input σ → Prop
  | change {change change' : Change σ} (h : change.AgreeOn names change') :
    AgreeOn names (.change change) (.change change')
  | call {c : Command} (h : c.usedNames ⊆ names) : AgreeOn names (.call c) (.call c)
  | proceed : AgreeOn names .proceed .proceed

namespace Scene
variable {σ : Type} {names : List String} {s s' : Scene σ}

/-- The same scene with another registry. -/
def under (r : Registry) (s : Scene σ) : Scene σ := { s with stage := s.stage.under r }

/-- Scenes that differ in nothing but their registries, and these in none of the names that anybody
will look up. -/
inductive AgreeOn (names : List String) (s : Scene σ) : Scene σ → Prop
  | intro {r : Registry} (hregistry : s.stage.registry.AgreeOn names r)
    (hstage : s.stage.Within names)
    (hcall : ∀ c request, s.call = some ⟨c, request⟩ → request.Within names) :
    AgreeOn names s (s.under r)

theorem AgreeOn.eq_under (h : AgreeOn names s s') : s' = s.under s'.stage.registry := by
  cases h
  rfl

variable [TimeBase σ]

theorem apply_under {st : Stage σ} {r : Registry} {change change' : Change σ}
    (hst : st.Within names) (h : st.registry.AgreeOn names r)
    (hchange : change.AgreeOn names change') :
    (change.apply st).Within names ∧ ∃ r', (change.apply st).registry.AgreeOn names r' ∧
      change'.apply (st.under r) = (change.apply st).under r' := by
  cases hchange with
  | turn through index =>
    refine ⟨Stage.within_turn hst through index, r, ?_, Stage.turn_under hst h through index⟩
    rwa [Change.apply, Stage.registry_turn]
  | clock clock => exact ⟨⟨hst.jobs, hst.active⟩, r, h, rfl⟩
  | @registry _ r' hr => exact ⟨⟨hst.jobs, hst.active⟩, r', hr, rfl⟩

theorem AgreeOn.next? {input input' : Input σ} (h : AgreeOn names s s')
    (hinput : input.AgreeOn names input') :
    Option.Rel (AgreeOn names) (s.next? input) (s'.next? input') := by
  obtain @⟨r, hregistry, hstage, hcall⟩ := h
  -- Whether an input counts does not depend on the registry, so it counts on both sides or neither.
  cases hinput with
  | change hchange =>
    show Option.Rel _ (if s.isFree then _ else none) (if s.isFree then _ else none)
    split
    · obtain ⟨hstage', r', hregistry', hsame⟩ := apply_under hstage hregistry hchange
      rw [show (s.under r).stage = s.stage.under r from rfl, hsame]
      exact .some (.intro hregistry' hstage' hcall)
    · exact .none
  | call hc =>
    show Option.Rel _ (if s.call.isNone then _ else none) (if s.call.isNone then _ else none)
    split
    · refine .some (.intro hregistry hstage ?_)
      rintro c request ⟨⟩
      exact Command.within_request hc
    · exact .none
  | proceed =>
    obtain ⟨st, _ | ⟨c, request⟩, answers⟩ := s
    · exact .none
    · have hrequest := hcall c request rfl
      simp only [Scene.next?, under]
      cases request.answer? with
      | some answer => exact .some (.intro hregistry hstage (by simp))
      | none =>
        rw [Request.step?_under hrequest hregistry]
        cases hstep : request.step? st with
        | none => exact .none
        | some after =>
          obtain ⟨hrequest', hstage', hkept⟩ := hrequest.step? hstage hstep
          refine .some (.intro (s := ⟨after.2, some ⟨c, after.1⟩, answers⟩)
            (hkept.symm ▸ hregistry) hstage' ?_)
          rintro c request ⟨⟩
          exact hrequest'

theorem AgreeOn.run? {inputs inputs' : List (Input σ)} (h : AgreeOn names s s')
    (hinputs : List.Forall₂ (Input.AgreeOn names) inputs inputs') :
    Option.Rel (AgreeOn names) (s.run? inputs) (s'.run? inputs') := by
  induction hinputs generalizing s s' with
  | nil => exact .some h
  | cons hinput _ ih =>
    have hnext := h.next? hinput
    simp only [Scene.run?, List.foldlM_cons]
    generalize s.next? _ = after, s'.next? _ = after' at hnext
    cases hnext with
    | none => exact .none
    | some hafter => exact ih hafter

end Scene
/-- Registries that nobody can tell apart by what becomes of a text: neither by reading it off nor
by anything that happens on a stage, over any clock and in any course of calls and turns. Frames,
events, questions to the clock and the payloads of actions are all in the journal of a stage. -/
structure Registry.AlikeOver (text : String) (r r' : Registry) : Prop where
  strip : r'.strip text = r.strip text
  validate : r'.validate text = r.validate text
  finalText : ∀ {σ : Type} (st : Stage σ), st.registry = r →
    (st.under r').finalText text = ((st.finalText text).1, (st.finalText text).2.under r')
  live : ∀ {σ : Type} [TimeBase σ] (st : Stage σ), st.registry = r → st.jobs = [] →
    st.player.active = none → ∀ inputs inputs' : List (Input σ),
      List.Forall₂ (Input.AgreeOn (usedNames text)) inputs inputs' →
        Option.Rel (fun s s' => s' = s.under s'.stage.registry)
          (Scene.run? ⟨st, none, []⟩ inputs) (Scene.run? ⟨st.under r', none, []⟩ inputs')

theorem Registry.AgreeOn.alikeOver {text : String} {r r' : Registry}
    (h : r.AgreeOn (usedNames text) r') : r.AlikeOver text r' where
  strip := h.strip.symm
  validate := h.validate.symm
  finalText := by
    rintro σ st rfl
    exact Stage.render_under (fun t ht => h _ (name_mem_usedNames ht)) _
  live := by
    rintro σ _ st rfl hjobs hactive inputs inputs' hinputs
    have hstart : Scene.AgreeOn (usedNames text) ⟨st, none, []⟩ ⟨st.under r', none, []⟩ :=
      .intro (s := ⟨st, none, []⟩) h ⟨by simp [hjobs], by simp [hactive]⟩ (by simp)
    have hruns := hstart.run? hinputs
    generalize Scene.run? ⟨st, none, []⟩ inputs = after, Scene.run? _ inputs' = after' at hruns
    cases hruns with
    | none => exact .none
    | some hagree => exact .some hagree.eq_under

/-- The names that a text uses are those of its tags, each listed once, where it is met first; and
they are all that the text depends on. Two registries with the same handlers for them give the same
results, and writing anything else into a registry has no effect. -/
theorem usedNames_suffice (text : String) :
    AreFirsts (usedNames text) ((Tag.lex text).map Tag.name) ∧
    (∀ r r' : Registry, r.AgreeOn (usedNames text) r' → r.AlikeOver text r') ∧
    ∀ (r : Registry) (writes : List Registry.Write),
      (∀ w ∈ writes, ∀ name ∈ usedNames text, ¬w.Decides name) →
        r.AlikeOver text (writes.foldl .write r) :=
  ⟨areFirsts_usedNames text, fun _ _ h => h.alikeOver,
    fun r _ h => (Registry.agreeOn_foldl_write h r).alikeOver⟩

/-- Without `clear` and with a tag of its own, a registry plays a pause as before. -/
theorem usedNames_suffice_for_pause :
    ∃ (st : Stage Clock) (inputs : List (Input Clock)) (r' : Registry) (s s' : Scene Clock),
      r'.has "clear" = false ∧ r'.has "x" = true ∧
      Registry.AlikeOver "a[pause=1]b" (.withBuiltins .own) r' ∧
      Scene.run? ⟨st, none, []⟩ inputs = some s ∧
      Scene.run? ⟨st.under r', none, []⟩ inputs = some s' ∧
      s.stage.player.state = .completed ∧ s'.stage.journal = s.stage.journal := by
  have hnames : usedNames "a[pause=1]b" = ["pause"] := by decide +kernel
  have hclear : Name.normalize "clear" ≠ "pause" := by decide
  have hmark : Name.normalize (Handler.markup "x").name ≠ "pause" := by decide
  have hother : ∀ w ∈ [Registry.Write.take "clear", .put (.markup "x")],
      ∀ name ∈ usedNames "a[pause=1]b", ¬w.Decides name := by
    simp [hnames, Registry.Write.Decides, hclear, hmark]
  obtain ⟨-, -, hwrites⟩ := usedNames_suffice "a[pause=1]b"
  have halike := hwrites (.withBuiltins .own) _ hother
  have hrun : ((Stage.new? (.withBuiltins .own) ({ kind := .timer, isOpen := true } : Clock) {}
      .own).bind fun st =>
        (Scene.run? ⟨st, none, []⟩ [.call (.start "a[pause=1]b" none true), .proceed, .proceed,
          .proceed, .proceed, .change (.turn true 0)]).map fun s =>
          (st.jobs.length, st.player.active, s.stage.player.state)) =
      some (0, none, .completed) := by
    decide +kernel
  simp only [Option.bind_eq_some_iff, Option.map_eq_some_iff, Prod.mk.injEq] at hrun
  obtain ⟨st, hnew, s, hs, hjobs, hactive, hstate⟩ := hrun
  have hregistry : st.registry = .withBuiltins .own := by
    obtain ⟨channel, -, rfl⟩ := Option.map_eq_some_iff.mp hnew
    rfl
  have hinputs : List.Forall₂ (Input.AgreeOn (σ := Clock) (usedNames "a[pause=1]b"))
      [.call (.start "a[pause=1]b" none true), .proceed, .proceed, .proceed, .proceed,
        .change (.turn true 0)]
      [.call (.start "a[pause=1]b" none true), .proceed, .proceed, .proceed, .proceed,
        .change (.turn true 0)] := by
    repeat' constructor
    exact List.Subset.refl _
  have hlive := halike.live st hregistry (List.length_eq_zero_iff.mp hjobs) hactive _ _ hinputs
  rw [hs] at hlive
  generalize hs' : Scene.run? ⟨st.under _, none, []⟩ _ = after at hlive
  obtain @⟨_, s', hsame⟩ := hlive
  refine ⟨st, _, _, s, s', ?_, ?_, halike, hs, hs', hstate, ?_⟩
  · decide +kernel
  · decide +kernel
  · rw [hsame]
    rfl

end TextReveal
