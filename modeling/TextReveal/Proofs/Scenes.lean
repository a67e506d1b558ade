import TextReveal.Proofs.Solo
/-!
What happens to a stage, one input at a time, be it to a session, to what is around the stage, or
to a call on its way. The same inputs always lead to the same scene.
-/
namespace TextReveal
open Relation

/-- What can happen to a stage that its owner leaves alone, whoever has the clock and the
registry. -/
inductive Change (σ : Type) where
  | turn (throughYields : Bool) (index : Nat)
  | clock (clock : σ)
  | registry (registry : Registry)

inductive Input (σ : Type) where
  | change (change : Change σ)
  | call (command : Command)
  /-- The call takes a step, or is answered. -/
  | proceed

/-- A stage, the call that is on its way, and the answers to all before it. -/
structure Scene (σ : Type) where
  stage : Stage σ
  call : Option ((c : Command) × Request c.Answer) := none
  answers : List ((c : Command) × c.Answer) := []

/-- Surroundings that may do anything. -/
def Surroundings.any (σ : Type) : Surroundings σ := ⟨fun _ => True, fun _ => True⟩

namespace Request
variable {α : Type}

/-- Whether others can do something before a request goes on. -/
def isWaiting : Request α → Bool
  | .await .. => true
  | _ => false

def answer? : Request α → Option α
  | .done answer => some answer
  | _ => none

end Request

def Change.apply {σ : Type} [TimeBase σ] (st : Stage σ) : Change σ → Stage σ
  | turn through index => st.turn through index
  | clock c => { st with clock := c }
  | registry r => { st with registry := r }

namespace Scene
variable {σ : Type}

/-- Whether the owner has nothing to do but to wait. -/
def isFree (s : Scene σ) : Bool :=
  match s.call with
  | none => true
  | some ⟨_, request⟩ => request.isWaiting

variable [TimeBase σ]

/-- What comes of an input, if there is anything to do for it. -/
def next? (s : Scene σ) : Input σ → Option (Scene σ)
  | .change change => if s.isFree then some { s with stage := change.apply s.stage } else none
  | .call c => if s.call.isNone then some { s with call := some ⟨c, c.request⟩ } else none
  | .proceed =>
    match s.call with
    | none => none
    | some ⟨c, request⟩ =>
      match request.answer? with
      | some answer => some { s with call := none, answers := s.answers ++ [⟨c, answer⟩] }
      | none => (request.step? s.stage).map fun (request, stage) =>
        { s with stage, call := some ⟨c, request⟩ }

def run? (s : Scene σ) (inputs : List (Input σ)) : Option (Scene σ) := inputs.foldlM next? s

/-- Where the owner of a stage has made some calls, each driven to its end, and may be about
another. -/
inductive Follows (start : Stage σ) : Scene σ → Prop
  | idle {stage : Stage σ} {answers : List ((c : Command) × c.Answer)}
    (h : Stage.History (.any σ) start (answers.map Sigma.fst) stage) :
    Follows start ⟨stage, none, answers⟩
  | busy {before stage : Stage σ} {c : Command} {request : Request c.Answer}
    {answers : List ((c : Command) × c.Answer)}
    (h : Stage.History (.any σ) start (answers.map Sigma.fst) before)
    (hs : Request.Steps (.any σ) (c.request, before) (request, stage)) :
    Follows start ⟨stage, some ⟨c, request⟩, answers⟩

variable {start : Stage σ} {s s' : Scene σ}

theorem move_apply (st : Stage σ) (change : Change σ) :
    st.Move (.any σ) (change.apply st) := by
  cases change with
  | turn through index => exact .turn through index st
  | clock => exact .clock trivial
  | registry => exact .registry trivial

theorem Follows.next (h : Follows start s) {input : Input σ} (hnext : s.next? input = some s') :
    Follows start s' := by
  -- A change counts only where no call is under way or the call waits, so it is a move of either.
  cases input with
  | change change =>
    obtain ⟨hfree, ⟨⟩⟩ := Option.ite_none_right_eq_some.mp hnext
    cases h with
    | idle h => exact .idle (h.move (move_apply _ change))
    | @busy _ _ _ request _ h hs =>
      cases request with
      | await => exact .busy h (hs.tail (.move (move_apply _ change)))
      | _ => cases hfree
  | call c =>
    obtain ⟨hidle, ⟨⟩⟩ := Option.ite_none_right_eq_some.mp hnext
    cases h with
    | idle h => exact .busy h .refl
    | busy => cases hidle
  | proceed =>
    cases h with
    | idle => cases hnext
    | @busy _ _ c request answers h hs =>
      simp only [next?] at hnext
      split at hnext
      · cases request with
        | done answer =>
          cases hnext
          refine .idle ?_
          rw [List.map_append]
          exact h.call c hs
        | _ => contradiction
      · obtain ⟨after, hstep, rfl⟩ := Option.map_eq_some_iff.mp hnext
        exact .busy h (hs.tail (.own hstep))

theorem Follows.run (h : Follows start s) {inputs : List (Input σ)}
    (hrun : s.run? inputs = some s') : Follows start s' := by
  induction inputs generalizing s with
  | nil => cases hrun; exact h
  | cons input inputs ih =>
    obtain ⟨mid, hnext, hrun⟩ := Option.bind_eq_some_iff.mp hrun
    exact ih (h.next hnext) hrun

theorem run?_concat {inputs : List (Input σ)} {mid : Scene σ} (hrun : s.run? inputs = some mid)
    (input : Input σ) (hnext : mid.next? input = some s') :
    s.run? (inputs ++ [input]) = some s' := by
  simp only [run?] at hrun
  simp [run?, List.foldlM_append, hrun, hnext]

theorem exists_apply_of_move {w : Surroundings σ} {st st' : Stage σ} (hm : st.Move w st') :
    ∃ change : Change σ, change.apply st = st' := by
  cases hm with
  | turn through index => exact ⟨.turn through index, rfl⟩
  | clock => exact ⟨.clock _, rfl⟩
  | registry => exact ⟨.registry _, rfl⟩

theorem exists_next_of_step {w : Surroundings σ} {c : Command}
    {before after : Request c.Answer × Stage σ} (hs : Request.Step w before after)
    (answers : List ((c : Command) × c.Answer)) :
    ∃ input, next? ⟨before.2, some ⟨c, before.1⟩, answers⟩ input =
      some ⟨after.2, some ⟨c, after.1⟩, answers⟩ := by
  cases hs with
  | move hm =>
    obtain ⟨change, rfl⟩ := exists_apply_of_move hm
    exact ⟨.change change, rfl⟩
  | @own request st _ hs =>
    refine ⟨.proceed, ?_⟩
    cases request with
    | done => cases hs
    | _ => simp [next?, Request.answer?, hs]

theorem exists_run_of_steps {w : Surroundings σ} {c : Command}
    {before after : Request c.Answer × Stage σ} (hs : Request.Steps w before after)
    {inputs : List (Input σ)} {answers : List ((c : Command) × c.Answer)}
    (hrun : s.run? inputs = some ⟨before.2, some ⟨c, before.1⟩, answers⟩) :
    ∃ inputs, s.run? inputs = some ⟨after.2, some ⟨c, after.1⟩, answers⟩ := by
  induction hs with
  | refl => exact ⟨inputs, hrun⟩
  | tail _ hstep ih =>
    obtain ⟨inputs, hrun⟩ := ih
    obtain ⟨input, hnext⟩ := exists_next_of_step hstep answers
    exact ⟨_, run?_concat hrun _ hnext⟩

/-- Whatever a history leads to, some inputs lead to. -/
theorem exists_run_of_history {w : Surroundings σ} {calls : List Command} {st : Stage σ}
    (h : Stage.History w start calls st) :
    ∃ inputs answers, run? ⟨start, none, []⟩ inputs = some ⟨st, none, answers⟩ ∧
      answers.map Sigma.fst = calls := by
  induction h with
  | begin => exact ⟨[], [], rfl, rfl⟩
  | move _ hm ih =>
    obtain ⟨inputs, answers, hrun, hcalls⟩ := ih
    obtain ⟨change, rfl⟩ := exists_apply_of_move hm
    exact ⟨_, answers, run?_concat hrun (.change change) rfl, hcalls⟩
  | @call calls st st' _ c answer hs ih =>
    obtain ⟨inputs, answers, hrun, rfl⟩ := ih
    have hcalled := run?_concat hrun (.call c) rfl
    obtain ⟨inputs', hrun'⟩ := exists_run_of_steps hs hcalled
    exact ⟨_, answers ++ [⟨c, answer⟩], run?_concat hrun' .proceed rfl, by simp⟩

end Scene

theorem Stage.Solo.length_jobs_le {σ : Type} {P : Ticket → Status → Prop} {st : Stage σ}
    (h : Solo P st) : st.jobs.length ≤ 1 := by
  cases h with
  | nobody hjobs => simp [hjobs]
  | somebody hjobs => simp [hjobs]

namespace Request
variable {α σ : Type} [TimeBase σ] {w : Surroundings σ} {P : Ticket → Status → Prop}
open Stage

/-- No step of a request brings a second session onto the stage. -/
theorem Ensures.length_jobs_le {request : Request α} {st : Stage σ}
    (h : request.Ensures w Awaits (fun _ st' => Solo P st') st) : st.jobs.length ≤ 1 := by
  induction request generalizing st with
  | done => exact Solo.length_jobs_le h
  | readState next ih => exact ih _ h
  | take next ih =>
    have hnext := ih _ h
    exact hnext
  | cancel next ih =>
    simp only [Ensures] at h
    split at h
    · exact ih _ h
    · simpa [cancelJob] using ih _ h
  | await session next =>
    have hids := (h st .refl).1
    rw [← List.length_map Job.id, show st.jobs.map Job.id = [session.id] from hids]
    exact Nat.le_refl 1
  | render source tags speed next ih =>
    rw [← (keeps_render st source tags _).jobs]
    exact ih _ h
  | launch text speed callback next ih =>
    have hlaunched := ih _ h
    rw [jobs_launch, List.length_append] at hlaunched
    exact Nat.le_of_add_right_le hlaunched
  | perform effect next ih =>
    rw [← (keeps_perform st effect).jobs]
    exact ih h

end Request

/-- At most one session is on the stage, also while a call is on its way. -/
theorem Scene.Follows.length_jobs_le {σ : Type} [TimeBase σ] {registry : Registry} {clock : σ}
    {config : Config} {hub : HubRef} {start : Stage σ} {s : Scene σ}
    (hnew : Stage.new? registry clock config hub = some start) (h : Follows start s) :
    s.stage.jobs.length ≤ 1 := by
  have hsolo {calls : List Command} {st : Stage σ}
      (h : Stage.History (.any σ) start calls st) : Stage.Solo (fun _ _ => True) st :=
    h.solo (fun _ _ _ _ => trivial) (fun _ _ _ _ _ => trivial) (Stage.solo_of_new? hnew)
  cases h with
  | idle h => exact (hsolo h).length_jobs_le
  | @busy _ _ c _ _ h hs =>
    exact ((Request.ensures_solo (fun _ _ _ _ => trivial) (hsolo h) c).steps hs).length_jobs_le

end TextReveal
