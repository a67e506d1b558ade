import TextReveal.Proofs.Composing
import TextReveal.Proofs.Ledger
import TextReveal.Proofs.Threads
/-!
How far a session on a thread of its own has come with its ending. It sets the state, publishes the
ending and runs the callback in three steps, and others may look in between.
-/
namespace TextReveal

namespace Session

/-- What is left of the session numbered `id` before it does anything to end, whatever its handlers
and the clock do and whenever it is cancelled. -/
inductive Undecided (id : Nat) : Session → Prop
  | complete : Undecided id (.complete id)
  | report : Undecided id ((Ending.cancelled.effects id).foldr .perform (.ended .cancelled))
  | left : Undecided id (.ended .cancelled)
  | crashed : Undecided id .crashed
  | frame {text : String} {next : Session} (h : Undecided id next) :
    Undecided id (.perform (.frame text) next)
  | reveal {text : String} {offset : Nat} {next : Session} (h : Undecided id next) :
    Undecided id (.perform (.publish (.revealed text offset)) next)
  | signal {s : Signal} {next : Session} (h : Undecided id next) :
    Undecided id (.perform (.signal s) next)
  | resolve {name : String} {next : Option Handler → Session}
    (h : ∀ found, Undecided id (next found)) : Undecided id (.resolve name next)
  | check {next : Bool → Session} (h : ∀ cancelled, Undecided id (next cancelled)) :
    Undecided id (.check next)
  | yield {next : Session} (h : Undecided id next) : Undecided id (.yield next)
  | breathe {next : Session} (h : Undecided id next) : Undecided id (.breathe next)
  | sleep {seconds : Number.Single} {next : Wake → Session}
    (h : ∀ wake, Undecided id (next wake)) : Undecided id (.sleep seconds next)

theorem undecided_abandon (id : Nat) : Undecided id (abandon id) := by
  refine .check fun cancelled => ?_
  cases cancelled with
  | true => exact .left
  | false => exact .report

theorem undecided_guarded {id : Nat} {next : Unit → Session} (h : Undecided id (next ())) :
    Undecided id (guarded id next) := by
  refine .check fun cancelled => ?_
  cases cancelled with
  | true => exact undecided_abandon id
  | false => exact h

theorem Composed.undecided {id : Nat} {asks : String → Prop} {woken : Bool} {s : Session}
    (h : Composed id (fun _ => True) asks woken s) : Undecided id s := by
  induction h with
  | complete => exact .complete
  | abandon => exact undecided_abandon id
  | crashed => exact .crashed
  | frame _ ih => exact .frame ih
  | reveal _ ih => exact .reveal ih
  | signal _ ih => exact .signal ih
  | resolve _ _ ih => exact .resolve fun found => ih found fun _ _ => trivial
  | guarded _ ih => exact undecided_guarded ih
  | yield _ ih => exact .yield (undecided_guarded ih)
  | poised _ ih => exact .breathe (undecided_guarded ih)
  | sleep _ _ ih => exact .sleep ih

theorem undecided_start (id : Nat) (policy : UnknownTags) (source : String) (tags : List Tag)
    (speed : Number.Single) : Undecided id (start id policy source tags speed) :=
  (composed_start id _ policy source tags speed false).undecided

end Session

/-- How far a session has come with its ending. -/
inductive Progress where
  /-- It has done nothing to end, and may leave it at that. -/
  | going
  /-- The state says that it is completed, and nothing else does. -/
  | completing
  /-- The completion is published, and the callback has not run. -/
  | completed
  | heard
  /-- The state says that it is cancelled, and nothing else does. -/
  | reporting
  | reported
  deriving DecidableEq, Repr

namespace Progress

def state : Progress → State
  | going => .typing
  | completing | completed | heard => .completed
  | reporting | reported => .cancelled

/-- What the session has published of its ending. -/
def events (id : Nat) : Progress → List Event
  | going | completing | reporting => []
  | completed | heard => [.completed id]
  | reported => [.cancelled id]

/-- How far a session has come that is over. -/
def IsOver (p : Progress) : Outcome → Prop
  | .completed => p = .heard
  | .cancelled => p = .going ∨ p = .reported

/-- What a session does on its way. -/
inductive Leads (id : Nat) : Progress → Option Effect → Progress → Prop
  | idle (p : Progress) : Leads id p none p
  | frame (p : Progress) (text : String) : Leads id p (some (.frame text)) p
  | reveal (p : Progress) (text : String) (offset : Nat) :
    Leads id p (some (.publish (.revealed text offset))) p
  | signal (p : Progress) (s : Signal) : Leads id p (some (.signal s)) p
  | complete : Leads id going (some (.setState .completed)) completing
  | publish : Leads id completing (some (.publish (.completed id))) completed
  | call : Leads id completed (some (.complete id)) heard
  | cancel : Leads id going (some (.setState .cancelled)) reporting
  | report : Leads id reporting (some (.publish (.cancelled id))) reported

end Progress

/-- A session that has come so far. -/
inductive Status.At (id : Nat) : Progress → Status → Prop
  | ready {s : Session} (h : s.Undecided id) : At id .going (.ready s)
  | asleep {seconds : Number.Single} {next : Wake → Session}
    (h : ∀ wake, (next wake).Undecided id) : At id .going (.asleep seconds next)
  | left : At id .going (.ended .cancelled)
  | crashed : At id .going .crashed
  | completing : At id .completing
    (.ready (.perform (.publish (.completed id)) (.perform (.complete id) (.ended .completed))))
  | completed : At id .completed (.ready (.perform (.complete id) (.ended .completed)))
  | heard : At id .heard (.ready (.ended .completed))
  | done : At id .heard (.ended .completed)
  | reporting : At id .reporting (.ready (.perform (.publish (.cancelled id)) (.ended .cancelled)))
  | reported : At id .reported (.ready (.ended .cancelled))
  | gone : At id .reported (.ended .cancelled)

namespace Status.At
variable {σ : Type} {id : Nat} {p : Progress} {status status' : Status} {cancelled : Bool}
  {wake : Wake} {st st' : Stage σ}

/-- A step of a session performs what leads to where it comes. -/
theorem step (h : status.At id p) (hs : status.step? cancelled wake st = some (status', st')) :
    ∃ effect p', status'.At id p' ∧ p.Leads id effect p' ∧
      status.mark? = (effect.bind Effect.event?).map .reported ∧ st.Keeps st' ∧
        st'.ledger = effect.elim st.ledger st.ledger.perform := by
  have hperform (e : Effect) : st.Keeps (st.perform e) ∧
      (st.perform e).ledger = (some e).elim st.ledger st.ledger.perform :=
    ⟨Stage.keeps_perform st e, Stage.ledger_perform st e⟩
  have hidle : st.Keeps st ∧ st.ledger = (none : Option Effect).elim st.ledger st.ledger.perform :=
    ⟨.refl st, rfl⟩
  -- There is one case for each way to be where it is, and each comes to one effect or none.
  cases h with
  | ready h =>
    cases h with
    | complete => cases hs; exact ⟨_, _, .completing, .complete, rfl, hperform _⟩
    | report => cases hs; exact ⟨_, _, .reporting, .cancel, rfl, hperform _⟩
    | left => cases hs; exact ⟨_, _, .left, .idle _, rfl, hidle⟩
    | crashed => cases hs; exact ⟨_, _, .crashed, .idle _, rfl, hidle⟩
    | frame h => cases hs; exact ⟨_, _, .ready h, .frame _ _, rfl, hperform _⟩
    | reveal h => cases hs; exact ⟨_, _, .ready h, .reveal _ _ _, rfl, hperform _⟩
    | signal h => cases hs; exact ⟨_, _, .ready h, .signal _ _, rfl, hperform _⟩
    | resolve h => cases hs; exact ⟨_, _, .ready (h _), .idle _, rfl, hidle⟩
    | check h => cases hs; exact ⟨_, _, .ready (h _), .idle _, rfl, hidle⟩
    | yield h => cases hs; exact ⟨_, _, .ready h, .idle _, rfl, hidle⟩
    | breathe h => cases hs; exact ⟨_, _, .ready h, .idle _, rfl, hidle⟩
    | sleep h =>
      cases hs
      exact ⟨_, _, .asleep h, .idle _, rfl, ⟨rfl, rfl, rfl, rfl, rfl⟩, Stage.ledger_note st rfl⟩
  | asleep h =>
    rw [step?, Option.ite_none_left_eq_some] at hs
    cases hs.2
    exact ⟨_, _, .ready (h wake), .idle _, rfl, hidle⟩
  | left => cases hs
  | crashed => cases hs
  | completing => cases hs; exact ⟨_, _, .completed, .publish, rfl, hperform _⟩
  | completed => cases hs; exact ⟨_, _, .heard, .call, rfl, hperform _⟩
  | heard => cases hs; exact ⟨_, _, .done, .idle _, rfl, hidle⟩
  | done => cases hs
  | reporting => cases hs; exact ⟨_, _, .reported, .report, rfl, hperform _⟩
  | reported => cases hs; exact ⟨_, _, .gone, .idle _, rfl, hidle⟩
  | gone => cases hs

/-- A session that is over has run its callback, has reported its end, or leaves that to others. -/
theorem isOver {outcome : Outcome} (h : status.At id p) (ho : status.outcome? = some outcome) :
    p.IsOver outcome := by
  cases h <;> cases ho <;> simp [Progress.IsOver]

end Status.At

/-- Where one session is on the stage, it takes a step, or what is around the stage changes. -/
theorem Logged.Move.of_lone {σ : Type} {x y : Logged σ} {j : Job} {id : Nat} {p : Progress}
    (hm : x.Move y) (hjobs : x.stage.jobs = [j]) (hat : j.status.At id p) :
    (∃ clock registry, y = ⟨{ x.stage with clock, registry }, x.log⟩) ∨
      ∃ effect p' status st, status.At id p' ∧ p.Leads id effect p' ∧ x.stage.Keeps st ∧
        st.ledger = effect.elim x.stage.ledger x.stage.ledger.perform ∧
        y = x.add (st.withJobs [{ j with status }])
          ((effect.bind Effect.event?).map .reported) := by
  cases hm with
  | clock clock => exact .inl ⟨clock, x.stage.registry, rfl⟩
  | registry registry => exact .inl ⟨x.stage.clock, registry, rfl⟩
  | @session index wake k status st hk hs =>
    obtain ⟨rfl, rfl⟩ : index = 0 ∧ k = j := by
      cases index <;> simp_all
    obtain ⟨effect, p', hat', hleads, hmark, hkeeps, hledger⟩ := hat.step hs
    refine .inr ⟨effect, p', status, st, hat', hleads, hkeeps, hledger, ?_⟩
    rw [hjobs, List.set_cons_zero, hmark]

end TextReveal
