import TextReveal.Proofs.Interleaving
/-!
At most one session is on a stage, and it is the one whose ticket the owner holds.
-/
namespace TextReveal
open Relation

namespace Stage
variable {σ : Type}

/-- Nobody on the stage, or the active session alone, of which `P` holds. -/
inductive Solo (P : Ticket → Status → Prop) (st : Stage σ) : Prop
  | nobody (hjobs : st.jobs = []) (hactive : st.player.active = none)
  | somebody {j : Job} {t : Ticket} (hjobs : st.jobs = [j]) (hactive : st.player.active = some t)
    (hid : j.id = t.id) (hfree : j.cancelled = false) (hp : P t j.status)

theorem solo_afterwards {P : Ticket → Status → Prop} (hstart : ∀ id policy text speed,
      P ⟨id, text, Tag.lex text, speed⟩ (.ready (.start id policy text (Tag.lex text) speed)))
    {st : Stage σ} (hjobs : st.jobs = []) (hactive : st.player.active = none) (c : Command) :
    Solo P (c.afterwards st) := by
  cases c with
  | start text speed callback =>
    have hlaunched := jobs_launch st text speed callback
    rw [hjobs, List.nil_append] at hlaunched
    exact .somebody hlaunched rfl rfl rfl (hstart (st.started + 1) st.player.config.unknownTags text
      (speed.getD st.player.config.defaultSpeed))
  | setInstant text =>
    have hkeeps := Command.keeps_setInstant st text
    exact .nobody (hkeeps.jobs.trans hjobs) (hkeeps.active.trans hactive)
  | _ => exact .nobody hjobs hactive

theorem solo_of_new? {registry : Registry} {clock : σ} {config : Config} {hub : HubRef}
    {st : Stage σ} {P : Ticket → Status → Prop}
    (h : Stage.new? registry clock config hub = some st) : Solo P st := by
  obtain ⟨channel, -, rfl⟩ := Option.map_eq_some_iff.mp h
  exact .nobody rfl rfl

variable [TimeBase σ] {w : Surroundings σ} {P : Ticket → Status → Prop} {st st' : Stage σ}

theorem registry_of_start {registry : Registry} {clock : σ} {config : Config} {hub : HubRef}
    {text : String} {speed : Option Number.Single} {callback : Bool} {id : Nat}
    (hnew : Stage.new? registry clock config hub = some st)
    (hstart : (Request.start text speed callback).run? st = some (id, st')) :
    st'.registry = registry := by
  obtain ⟨channel, -, rfl⟩ := Option.map_eq_some_iff.mp hnew
  cases hstart
  rfl

theorem Solo.move (hresume : ∀ t status through (st : Stage σ), P t status →
    P t (resume ⟨false, through⟩ status st).1) (h : Solo P st) (hm : st.Move w st') :
    Solo P st' := by
  cases h with
  | nobody hjobs hactive =>
    have hids := ids_moves (.single hm)
    rw [hjobs] at hids
    exact .nobody (List.map_eq_nil_iff.mp hids) ((active_moves (.single hm)).trans hactive)
  | @somebody j t hjobs hactive hid hfree hp =>
    cases hm with
    | clock => exact .somebody hjobs hactive hid hfree hp
    | registry => exact .somebody hjobs hactive hid hfree hp
    | turn through index =>
      cases index with
      | succ index =>
        rw [turn_lone_succ hjobs]
        exact .somebody hjobs hactive hid hfree hp
      | zero =>
        have hafter := (active_turn st through 0).trans hactive
        rw [turn_lone hjobs] at hafter ⊢
        refine .somebody rfl hafter hid hfree ?_
        simpa only [hfree] using hresume t j.status through st hp

end Stage

namespace Request
variable {α σ : Type} [TimeBase σ] {w : Surroundings σ} {P : Ticket → Status → Prop}
  {post : α → Stage σ → Prop} {st : Stage σ}
open Stage

/-- Nobody is on the stage but the session that is waited for. -/
def Awaits {σ : Type} (session : Ticket) (st : Stage σ) : Prop :=
  st.jobs.map Job.id = [session.id]

/-- A session that has been waited for is gone. -/
theorem ensures_await_solo {session : Ticket} {next : Outcome → Request α}
    (hids : st.jobs.map Job.id = [session.id]) (hactive : st.player.active = none)
    (hnext : ∀ outcome st', st'.jobs = [] → st'.player.active = none →
      (next outcome).Ensures w Awaits post st') :
    (await session next).Ensures w Awaits post st := by
  intro st' hm
  have hids' := (ids_moves hm).trans hids
  refine ⟨hids', fun outcome _ => hnext outcome _ ?_ ((active_moves hm).trans hactive)⟩
  rw [removeJob, List.filter_eq_nil_iff]
  intro j hj
  have hmem : j.id ∈ st'.jobs.map Job.id := List.mem_map_of_mem hj
  rw [hids'] at hmem
  simpa using hmem

theorem ensures_halt_solo {next : Bool → Request α} (h : Solo P st)
    (hnext : ∀ stopped st', st'.jobs = [] → st'.player.active = none →
      (next stopped).Ensures w Awaits post st') :
    (halt next).Ensures w Awaits post st := by
  cases h with
  | nobody hjobs hactive =>
    simp only [halt, Ensures, hactive]
    exact hnext false st hjobs hactive
  | @somebody j t hjobs hactive hid hfree hp =>
    simp only [halt, Ensures, hactive]
    refine ensures_await_solo (by simp [cancelJob, hjobs, hid]) rfl ?_
    intro outcome st' hjobs' hactive'
    split
    · exact hnext true _ hjobs' hactive'
    · exact hnext false _ hjobs' hactive'

theorem ensures_skip_solo (h : Solo P st) :
    Request.skip.Ensures w Awaits (fun _ st' => Solo P st') st := by
  rw [Request.skip, Ensures]
  split
  · exact h
  · cases h with
    | nobody hjobs hactive =>
      simp only [Ensures, hactive]
      exact .nobody hjobs hactive
    | @somebody j t hjobs hactive hid hfree hp =>
      simp only [Ensures, hactive]
      refine ensures_await_solo (by simp [cancelJob, hjobs, hid]) rfl ?_
      intro outcome st' hjobs' hactive'
      cases outcome with
      | completed => exact .nobody hjobs' hactive'
      | cancelled =>
        have hrendered := keeps_render st' t.source t.tags t.speed
        simp only [Ensures, Option.getD_some]
        generalize st'.render t.source t.tags t.speed = r at hrendered ⊢
        refine ensures_performAll _ ?_
        have hkeeps effects := hrendered.trans (keeps_foldl_perform r.2 effects)
        exact .nobody ((hkeeps _).jobs.trans hjobs') ((hkeeps _).active.trans hactive')

theorem ensures_join_solo (h : Solo P st) :
    Request.join.Ensures w Awaits (fun _ st' => Solo P st') st := by
  cases h with
  | nobody hjobs hactive =>
    simp only [Request.join, Ensures, hactive]
    exact .nobody hjobs rfl
  | @somebody j t hjobs hactive hid hfree hp =>
    rw [Request.join, Ensures, hactive]
    refine ensures_await_solo (by simp [hjobs, hid]) rfl ?_
    exact fun _ st' hjobs' hactive' => .nobody hjobs' hactive'

theorem ensures_solo (hstart : ∀ id policy text speed,
      P ⟨id, text, Tag.lex text, speed⟩ (.ready (.start id policy text (Tag.lex text) speed)))
    (h : Solo P st) (c : Command) :
    c.request.Ensures w Awaits (fun _ st' => Solo P st') st := by
  cases c with
  | skip => exact ensures_skip_solo h
  | join => exact ensures_join_solo h
  | _ =>
    refine Command.ensures_of_cancels rfl fun next hnext => ensures_halt_solo h ?_
    intro stopped st' hjobs hactive
    exact hnext stopped st' fun _ => solo_afterwards hstart hjobs hactive _

end Request

namespace Stage
variable {σ : Type} [TimeBase σ] {w : Surroundings σ} {P : Ticket → Status → Prop}
  {start st begun : Stage σ} {calls : List Command}

theorem History.solo (hbegin : ∀ id policy text speed,
      P ⟨id, text, Tag.lex text, speed⟩ (.ready (.start id policy text (Tag.lex text) speed)))
    (hresume : ∀ t status through (st : Stage σ), P t status →
      P t (resume ⟨false, through⟩ status st).1)
    (hstart : Solo P start) (h : History w start calls st) : Solo P st := by
  induction h with
  | begin => exact hstart
  | move _ hm ih => exact ih.move hresume hm
  | call _ c hsteps ih => exact (Request.ensures_solo hbegin ih c).steps hsteps

/-- A session starts on an empty stage. -/
theorem History.launched {registry : Registry} {clock : σ} {config : Config} {hub : HubRef}
    {text : String} {speed : Option Number.Single} {callback : Bool} {id : Nat}
    (hnew : Stage.new? registry clock config hub = some start) (h : History w start calls st)
    (hs : Request.Steps w (.start text speed callback, st) (.done id, begun)) :
    ∃ before : Stage σ, before.jobs = [] ∧ id = before.started + 1 ∧
      begun = (before.launch text speed callback).2 := by
  have hsolo : Solo (fun _ _ => True) st :=
    h.solo (fun _ _ _ _ => trivial) (fun _ _ _ _ _ => trivial) (solo_of_new? hnew)
  have hensures : (Request.start text speed callback).Ensures w Request.Awaits
      (fun id begun => ∃ before : Stage σ, before.jobs = [] ∧ id = before.started + 1 ∧
        begun = (before.launch text speed callback).2) st :=
    Request.ensures_halt_solo hsolo fun _ before hjobs _ => ⟨before, hjobs, rfl, rfl⟩
  exact hensures.steps hs

end Stage
end TextReveal
