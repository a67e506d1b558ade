import TextReveal.Proofs.Agreement
/-!
What a session does, act by act, if nobody cancels it and no wait fails, and what of that is written
down in the journal of its stage.
-/
namespace TextReveal

/-- Something that a session does. -/
inductive Act where
  | did (effect : Effect)
  /-- It has asked whether it is cancelled. -/
  | looked
  | yielded
  | asked (seconds : Number.Single)
  /-- It is over. One that has broken down has no outcome. -/
  | finished (outcome : Option Outcome)
  deriving DecidableEq, Repr

/-- What an act writes down. The state is not in the journal, and a callback only if it runs. -/
def Act.note? : Act → Option Entry
  | did (.frame text) => some (.frame text)
  | did (.publish event) => some (.published event)
  | did (.signal (.action hub payload)) => some (.fired hub payload)
  | did (.signal (.called call)) => some (.called call)
  | did (.setState _) | did (.complete _) => none
  | looked | yielded | finished _ => none
  | asked seconds => some (.asked seconds)

/-- Whether an entry is written down by an act alone, whoever is listening. -/
def Entry.isAct : Entry → Bool
  | frame _ | published _ | asked _ | fired .. | called _ => true
  | heard .. | completed _ => false

/-- The acts of a live effect whose waits succeed, up to the look that follows it. -/
def LiveEffect.acts : LiveEffect → List Act
  | .done reply =>
    reply.signals.map (.did ∘ .signal) ++ if reply.verdict = .crashed then [] else [.looked]
  | .signal s next => .did (.signal s) :: next.acts
  | .wait seconds resume => .asked seconds :: (resume (.ok ())).acts

namespace Session

def acts (r : Registry) : Session → List Act
  | .ended outcome => [.finished (some outcome)]
  | .crashed => [.finished none]
  | .perform effect next => .did effect :: next.acts r
  | .resolve name next => (next (r.get? name)).acts r
  | .check next => .looked :: (next false).acts r
  | .yield next => .yielded :: next.acts r
  | .breathe next => next.acts r
  | .sleep seconds next => .asked seconds :: (next .elapsed).acts r

/-- The acts at a tag, up to its handler's answer. -/
def tagActs (h : Handler) (t : Tag) (ctx : Context) : List Act :=
  if t.closes h then (h.closing ctx).signals.map (.did ∘ .signal)
  else if h.isTimed then .looked :: (h.openLive ctx t.parameter).acts
  else (h.opening ctx t.parameter).signals.map (.did ∘ .signal)

/-- The acts of the wait behind a visible step. -/
def delayActs (speed : Number.Single) : List Act :=
  if speed.isPositive then [.looked, .asked speed, .looked] else []

/-- The acts by which a handler's answer is shown. -/
def responseActs (position : Nat) (response : Response) (ctx : Context) : List Act :=
  (if response.isVisible then response.replacement else none).toList.map
      (fun text => .did (.publish (.revealed text position))) ++
    .did (.frame ctx.buffer) :: if response.isVisible then delayActs ctx.speed else []

/-- The acts at the start of a step of the loop. -/
def turnActs (step : Nat) (speed : Number.Single) : List Act :=
  .looked :: if step % yieldEvery = 0 ∧ speed.isNonPositive then [.yielded, .looked] else []

variable {id : Nat} {r : Registry}

theorem acts_delay {ctx : Context} {next : Unit → Session} :
    (delay id ctx next).acts r = delayActs ctx.speed ++ (next ()).acts r := by
  unfold delay delayActs
  split <;> rfl

theorem acts_turn {step : Nat} {ctx : Context} {next : Unit → Session} :
    (turn id step ctx next).acts r = turnActs step ctx.speed ++ (next ()).acts r := by
  unfold turn turnActs
  by_cases hyields : step % yieldEvery = 0 ∧ ctx.speed.isNonPositive
  · rw [if_pos hyields, if_pos hyields]
    rfl
  · rw [if_neg hyields, if_neg hyields]
    rfl

theorem acts_signals {list : List Signal} {next : Session} :
    (signals list next).acts r = list.map (.did ∘ .signal) ++ next.acts r := by
  induction list with
  | nil => rfl
  | cons s list ih => exact congrArg (Act.did (.signal s) :: ·) ih

theorem acts_ofLive {effect : LiveEffect} {next : Context → Response → Session} :
    (ofLive id next effect).acts r = effect.acts ++ (judge id effect.settled next).acts r := by
  induction effect with
  | done reply =>
    rw [ofLive, acts_signals, LiveEffect.acts, LiveEffect.settled, List.append_assoc]
    congr 1
    by_cases hcrashed : reply.verdict = .crashed
    · rw [if_pos hcrashed, if_pos hcrashed, judge, hcrashed]
      rfl
    · rw [if_neg hcrashed, if_neg hcrashed]
      rfl
  | signal s effect ih => exact congrArg (Act.did (.signal s) :: ·) ih
  | wait seconds resume ih =>
    rw [ofLive]
    exact congrArg (Act.asked seconds :: ·) (ih (.ok ()))

theorem acts_runTag {h : Handler} {t : Tag} {ctx : Context}
    {next : Context → Response → Session} :
    (runTag id h t ctx next).acts r =
      tagActs h t ctx ++ (judge id (liveReply h t ctx) next).acts r := by
  unfold runTag tagActs liveReply
  split
  · exact acts_signals
  · split
    · exact congrArg (Act.looked :: ·) acts_ofLive
    · rename_i huntimed
      have hlive : h.live = none := by simpa [Handler.isTimed] using huntimed
      rw [ofReply, acts_signals, Handler.openLive, hlive]
      rfl

theorem acts_showChar {position : Nat} {c : Char} {ctx : Context} {next : Context → Session} :
    (showChar id position c ctx next).acts r =
      .did (.publish (.revealed c.toString position)) ::
        .did (.frame (ctx.append c.toString).buffer) ::
          (delayActs ctx.speed ++ (next (ctx.append c.toString)).acts r) := by
  unfold showChar announce frame
  simp only [acts, acts_delay]
  rfl

theorem acts_announce {text : Option String} {offset : Nat} {next : Session} :
    (announce text offset next).acts r =
      text.toList.map (fun text => .did (.publish (.revealed text offset))) ++ next.acts r := by
  cases text <;> rfl

theorem acts_showResponse {position : Nat} {response : Response} {ctx : Context}
    {next : Context → Session} :
    (showResponse id position response ctx next).acts r =
      responseActs position response (ctx.append response.shown) ++
        (next (ctx.append response.shown)).acts r := by
  rw [showResponse, acts_announce, responseActs, List.append_assoc]
  congr 1
  rw [frame, acts, List.cons_append]
  split
  · rw [acts_delay]
  · rfl

/-- An answer that is not visible is neither announced nor waited for. -/
theorem responseActs_of_not_isVisible {position : Nat} {response : Response} {ctx : Context}
    (h : response.isVisible = false) :
    responseActs position response ctx = [.did (.frame ctx.buffer)] := by
  simp [responseActs, h]

end Session

/-- What is left to do. -/
def Status.acts (r : Registry) : Status → List Act
  | .ready s => s.acts r
  | .asleep _ next => (next .elapsed).acts r
  | .ended outcome => [.finished (some outcome)]
  | .crashed => [.finished none]

namespace Stage
variable {σ : Type}

/-- What the acts of sessions and owner have written down. -/
def record (st : Stage σ) : List Entry := st.journal.toList.filter Entry.isAct

/-- What is written down by acts alone can be read off the record. -/
theorem filter_record_of_isAct {p : Entry → Bool} (hp : ∀ entry : Entry, p entry → entry.isAct)
    (st : Stage σ) : st.record.filter p = st.journal.toList.filter p := by
  rw [record, List.filter_filter]
  refine List.filter_congr fun entry _ => ?_
  by_cases hentry : p entry
  · rw [hentry, hp entry hentry]
    rfl
  · simp [hentry]

theorem record_note (st : Stage σ) (entry : Entry) :
    (st.note entry).record = st.record ++ if entry.isAct then [entry] else [] := by
  rw [record, note, Array.toList_push, List.filter_append, List.filter_cons, List.filter_nil]
  rfl

theorem record_fire (st : Stage σ) (payload : String) : (st.fire payload).record = st.record := by
  simp [record, fire_eq, Entry.isAct, List.filter_map]

theorem record_perform (st : Stage σ) (e : Effect) :
    (st.perform e).record = st.record ++ (Act.did e).note?.toList := by
  cases e with
  | frame text => exact record_note st _
  | publish event => exact record_note _ _
  | setState => exact (List.append_nil _).symm
  | complete session =>
    simp only [perform, runCallback, Act.note?, Option.toList_none, List.append_nil]
    split
    · rw [record_note]
      exact List.append_nil _
    · rfl
  | signal s =>
    cases s with
    | called call => exact record_note st _
    | action hub payload =>
      simp only [perform, signal]
      split
      · rw [record_fire]
        exact record_note st _
      · exact record_note st _

/-- What is left of the acts that a session had to do when a turn of it is over, and what the rest
has written down. -/
def Does (acts : List Act) (st : Stage σ) (after : Status × Stage σ) : Prop :=
  ∃ done, acts = done ++ after.1.acts st.registry ∧
    after.2.record = st.record ++ done.filterMap Act.note?

variable {acts : List Act} {act : Act} {st st' : Stage σ} {after : Status × Stage σ}

theorem Does.nothing (status : Status) (st : Stage σ) :
    Does (status.acts st.registry) st (status, st) :=
  ⟨[], rfl, (List.append_nil _).symm⟩

theorem Does.cons (h : Does acts st' after) (hregistry : st'.registry = st.registry)
    (hrecord : st'.record = st.record ++ act.note?.toList) : Does (act :: acts) st after := by
  obtain ⟨done, hacts, hafter⟩ := h
  refine ⟨act :: done, ?_, ?_⟩
  · rw [hacts, hregistry, List.cons_append]
  · rw [hafter, hrecord, List.append_assoc, List.filterMap_cons]
    cases act.note? <;> rfl

variable [TimeBase σ] {through fails : Bool}

theorem Drives.does {s : Session} (h : Drives ⟨false, through⟩ s st fails after)
    (hfails : fails = false) : Does (s.acts st.registry) st after := by
  -- Each node is one act or none, and writes down the note of that act and nothing else.
  induction h with
  | @ended outcome st => exact .nothing (.ended outcome) st
  | @crashed st => exact .nothing .crashed st
  | @perform e next st _ _ _ ih =>
    have hregistry := (keeps_perform st e).registry
    have hnext := ih hfails
    rw [hregistry] at hnext
    exact hnext.cons hregistry (record_perform st e)
  | resolve _ ih => exact ih hfails
  | check _ ih => exact (ih hfails).cons rfl (List.append_nil _).symm
  | yield _ ih => exact (ih hfails).cons rfl (List.append_nil _).symm
  | @yields next st => exact (Does.nothing (.ready next) st).cons rfl (List.append_nil _).symm
  | breathe _ ih => exact ih hfails
  | @breathes next st => exact .nothing (.ready next) st
  | elapsed _ _ ih => exact (ih hfails).cons rfl (record_note _ _)
  | failed => cases hfails
  | cancelled _ hcancelled => cases hcancelled
  | @asleep seconds next st clock =>
    have hstopped := Does.nothing (.asleep seconds next)
      ({ st with clock }.note (.asked seconds))
    exact hstopped.cons rfl (record_note _ _)

theorem Resumes.does {status : Status} (h : Resumes ⟨false, through⟩ status st fails after)
    (hfails : fails = false) : Does (status.acts st.registry) st after := by
  cases h with
  | @ended outcome => exact .nothing (.ended outcome) st
  | crashed => exact .nothing .crashed st
  | ready h => exact h.does hfails
  | cancelled hcancelled => cases hcancelled
  | elapsed _ _ h => exact h.does hfails
  | failed => cases hfails
  | @asleep seconds next => exact .nothing (.asleep seconds next) st

/-- While nobody cancels a session, its registry stays as it is and no clock fails it, it goes
through its acts, and they are what is written down. -/
theorem Undisturbed.does {id n : Nat} {status : Status} {start : Stage σ}
    (hjobs : start.jobs = [⟨id, status, false⟩]) (h : Undisturbed start n st) :
    ∃ status', st.jobs = [⟨id, status', false⟩] ∧ st.registry = start.registry ∧
      Does (status.acts start.registry) start (status', st) := by
  induction h with
  | begin => exact ⟨status, hjobs, rfl, .nothing status start⟩
  | clock _ clock ih => exact ih
  | wait _ ih => exact ih
  | @turn n st _ through index hclock ih =>
    obtain ⟨status', hjobs', hregistry, hdoes⟩ := ih
    cases index with
    | succ index =>
      rw [turn_lone_succ hjobs']
      exact ⟨status', hjobs', hregistry, hdoes⟩
    | zero =>
      have hnofail : resumeFails through status' st = false := by
        simpa [turnFails, hjobs'] using hclock
      have hkeeps := keeps_resume ⟨false, through⟩ status' st
      obtain ⟨done, hacts, hrecord⟩ := hdoes
      obtain ⟨done', hacts', hrecord'⟩ := (resumes_free through _ _).does hnofail
      rw [turn_lone hjobs']
      refine ⟨_, rfl, hkeeps.registry.trans hregistry, done ++ done', ?_, ?_⟩
      · rw [hregistry] at hacts'
        rw [hacts, hacts', List.append_assoc]
      · rw [List.filterMap_append, ← List.append_assoc, ← hrecord]
        exact hrecord'

end Stage
end TextReveal
