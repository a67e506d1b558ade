import TextReveal.Proofs.Deciding
import TextReveal.Proofs.Skipping
/-!
What has become of each session: the endings it has been given, its callback, and whether its own
report has overtaken an owner who still took it to be typing.
-/
namespace TextReveal

namespace Mark

def isOwners : Mark → Bool
  | looked _ | told _ => true
  | reported _ => false

/-- The last thing the owner did was to find that a session is typing. -/
def Expects (log : List Mark) : Prop :=
  (log.filter isOwners).getLast? = some (.looked .typing)

/-- A session has reported its own cancellation when its owner had just found it typing. -/
def Overtaken (id : Nat) (log : List Mark) : Prop :=
  ∃ before behind, log = before ++ .reported (.cancelled id) :: behind ∧ Expects before

theorem expects_concat (log : List Mark) (mark : Mark) :
    Expects (log ++ [mark]) ↔ if mark.isOwners then mark = .looked .typing else Expects log := by
  unfold Expects
  split <;> rename_i h <;> simp [List.filter_append, h]

theorem expects_reported (log : List Mark) (event : Option Event) :
    Expects (log ++ (event.map .reported).toList) ↔ Expects log := by
  cases event with
  | none => simp
  | some event => exact (expects_concat log _).trans (by simp [isOwners])

theorem overtaken_concat (id : Nat) (log : List Mark) (mark : Mark) :
    Overtaken id (log ++ [mark]) ↔
      Overtaken id log ∨ mark = .reported (.cancelled id) ∧ Expects log := by
  constructor
  · rintro ⟨before, behind, hlog, hexpects⟩
    obtain rfl | ⟨behind, last, rfl⟩ := behind.eq_nil_or_concat
    · obtain ⟨rfl, hlast⟩ := List.append_inj' hlog rfl
      exact .inr ⟨List.singleton_inj.mp hlast, hexpects⟩
    · rw [List.concat_eq_append, ← List.cons_append, ← List.append_assoc] at hlog
      exact .inl ⟨before, behind, (List.append_inj' hlog rfl).1, hexpects⟩
  · rintro (⟨before, behind, rfl, hexpects⟩ | ⟨rfl, hexpects⟩)
    · exact ⟨before, behind ++ [mark], by simp, hexpects⟩
    · exact ⟨log, [], rfl, hexpects⟩

end Mark

/-- The session whose ending an event tells of. -/
def Event.ended? : Event → Option Nat
  | completed session | skipped session | cancelled session => some session
  | started _ | revealed .. => none

/-- The session that an effect gives an ending, or whose callback it runs. -/
def Effect.ended? : Effect → Option Nat
  | publish event => event.ended?
  | complete session => some session
  | frame _ | setState _ | signal _ => none

/-- What has become of a session. -/
structure Account where
  /-- What has been published of its ending. -/
  endings : List Event := []
  /-- How often its callback waits. -/
  waiting : Nat := 0
  /-- How often its callback has run. -/
  ran : Nat := 0
  overtaken : Prop := False

namespace Account

def perform (id : Nat) (a : Account) : Effect → Account
  | .publish event =>
    if event.ended? = some id then { a with endings := a.endings ++ [event] } else a
  | .complete session =>
    if session = id ∧ 0 < a.waiting then { a with waiting := a.waiting - 1, ran := a.ran + 1 }
    else a
  | .frame _ | .setState _ | .signal _ => a

/-- What is done by the session itself. -/
def report (id : Nat) (expects : Prop) (a : Account) (e : Effect) : Account :=
  { a with
    overtaken := a.overtaken ∨ e = Effect.publish (.cancelled id) ∧ expects }.perform id e

/-- One ending at most, and no callback with a cancellation. -/
def EndsOnce (id : Nat) (a : Account) : Prop :=
  (∃ e : Ending, a.endings <+: e.events id) ∧ (.cancelled id ∈ a.endings → a.ran = 0)

/-- A cancellation, and another ending behind it. -/
def EndsTwice (id : Nat) (a : Account) : Prop :=
  ∃ e : Ending, e ≠ .completed ∧ a.endings = .cancelled id :: e.events id

variable {id : Nat} {a : Account} {e : Effect}

theorem perform_of_ne (h : e.ended? ≠ some id) : a.perform id e = a := by
  cases e with
  | publish event => exact if_neg h
  | complete session => exact if_neg fun hboth => h (congrArg some hboth.1)
  | _ => rfl

theorem report_of_ne (expects : Prop) (h : e.ended? ≠ some id) : a.report id expects e = a := by
  have hother : e ≠ .publish (.cancelled id) := by
    rintro rfl
    exact h rfl
  simp [report, perform_of_ne h, hother]

theorem overtaken_perform (id : Nat) (a : Account) (e : Effect) :
    (a.perform id e).overtaken = a.overtaken := by
  cases e <;> simp only [perform] <;> split <;> rfl

theorem overtaken_foldl (id : Nat) (a : Account) (effects : List Effect) :
    (effects.foldl (perform id) a).overtaken = a.overtaken := by
  induction effects generalizing a with
  | nil => rfl
  | cons e effects ih => rw [List.foldl_cons, ih, overtaken_perform]

/-- What has ended once had ended once before. -/
theorem EndsOnce.of_perform (h : (a.perform id e).EndsOnce id) : a.EndsOnce id := by
  obtain ⟨⟨ending, hprefix⟩, hran⟩ := h
  have hgrows : a.endings <+: (a.perform id e).endings ∧ a.ran ≤ (a.perform id e).ran := by
    cases e with
    | publish event => simp only [perform]; split <;> simp
    | complete session => simp only [perform]; split <;> simp
    | _ => exact ⟨List.prefix_refl _, le_rfl⟩
  obtain ⟨hendings, hcalls⟩ := hgrows
  refine ⟨⟨ending, hendings.trans hprefix⟩, fun hmem => ?_⟩
  have hnone := hran (hendings.subset hmem)
  omega

theorem EndsOnce.of_foldl {effects : List Effect}
    (h : (effects.foldl (perform id) a).EndsOnce id) : a.EndsOnce id := by
  induction effects generalizing a with
  | nil => exact h
  | cons e effects ih => exact (ih h).of_perform

theorem EndsTwice.not_endsOnce (h : a.EndsTwice id) : ¬a.EndsOnce id := by
  obtain ⟨e, -, he⟩ := h
  rintro ⟨⟨e', hprefix⟩, -⟩
  rw [he] at hprefix
  cases e' <;> cases e <;> simp [Ending.events] at hprefix

end Account

/-- What a session that has come so far has done for its account. -/
def Progress.account (id : Nat) (callback : Bool) (expects : Prop) (p : Progress) : Account where
  endings := p.events id
  waiting := if callback && p != .heard then 1 else 0
  ran := if callback && p == .heard then 1 else 0
  overtaken := p = .reported ∧ expects

namespace Progress
variable {id : Nat} {p p' : Progress} {effect : Option Effect}

theorem account_congr (id : Nat) (callback : Bool) {expects expects' : Prop}
    (h : p = .reported → (expects ↔ expects')) :
    p.account id callback expects = p.account id callback expects' := by
  rw [account, account, and_congr_right h]

theorem Leads.account (h : p.Leads id effect p') (callback : Bool) (expects : Prop) :
    effect.elim (p.account id callback expects)
        ((p.account id callback expects).report id expects) =
      p'.account id callback expects := by
  cases h <;> cases callback <;>
    simp [Progress.account, Account.report, Account.perform, Event.ended?, Progress.events]

theorem Leads.account_of_ne (h : p.Leads id effect p') {i : Nat} (hi : i ≠ id) (a : Account)
    (expects : Prop) : effect.elim a (a.report i expects) = a := by
  cases h with
  | idle => rfl
  | publish | call | report => exact Account.report_of_ne _ fun heq => hi (Option.some.inj heq).symm
  | _ => exact Account.report_of_ne _ nofun

theorem Leads.state (h : p.Leads id effect p') (l : Ledger) (hl : l.state = p.state) :
    (effect.elim l l.perform).state = p'.state := by
  cases h <;> first | exact hl | rfl | skip
  simp only [Option.elim, Ledger.perform]
  split <;> exact hl

theorem endsOnce_account (id : Nat) (callback : Bool) (expects : Prop) (p : Progress) :
    (p.account id callback expects).EndsOnce id := by
  constructor
  · cases p with
    | reported => exact ⟨.cancelled, List.prefix_refl _⟩
    | completed | heard => exact ⟨.completed, List.prefix_refl _⟩
    | _ => exact ⟨.completed, List.nil_prefix⟩
  · cases p <;> simp [account, events]

end Progress

/-- What a ledger says of a session. -/
def Ledger.account (l : Ledger) (id : Nat) (overtaken : Prop) : Account where
  endings := l.events.filter (·.ended? = some id)
  waiting := l.waiting.count id
  ran := l.ran.count id
  overtaken := overtaken

theorem Ledger.account_perform (l : Ledger) (id : Nat) (overtaken : Prop) (e : Effect) :
    (l.perform e).account id overtaken = (l.account id overtaken).perform id e := by
  cases e with
  | publish event =>
    by_cases hid : event.ended? = some id <;> simp [account, perform, Account.perform, hid]
  | complete session =>
    by_cases hid : session = id
    · subst hid
      by_cases hwaits : session ∈ l.waiting <;> simp [account, perform, Account.perform, hwaits]
    · have hother := List.count_erase_of_ne (l := l.waiting) (Ne.symm hid)
      by_cases hwaits : session ∈ l.waiting <;>
        simp [account, perform, Account.perform, hwaits, hid, hother]
  | _ => rfl

/-- A new session owes what comes with it. -/
theorem Ledger.account_launch (l : Ledger) (id : Nat) (callback : Bool) (i : Nat)
    (overtaken : Prop) : (l.launch id callback).account i overtaken =
      { l.account i overtaken with
        waiting := (l.account i overtaken).waiting + if i = id ∧ callback then 1 else 0 } := by
  cases callback <;> by_cases hid : id = i <;>
    simp [account, launch, Event.ended?, hid, eq_comm]

namespace Logged
variable {σ : Type}
open Mark

def account (x : Logged σ) (id : Nat) : Account :=
  x.stage.ledger.account id (Overtaken id x.log)

variable {x : Logged σ} {st : Stage σ} {e : Effect}

theorem account_add_none (h : st.ledger = x.stage.ledger) (id : Nat) :
    (x.add st none).account id = x.account id := by
  simp [account, add, h]

theorem account_looked (h : st.ledger = x.stage.ledger) (state : State) (id : Nat) :
    (x.add st (some (.looked state))).account id = x.account id := by
  simp [account, add, h, overtaken_concat]

theorem account_told (h : st.ledger = x.stage.ledger.perform e) (id : Nat) :
    (x.add st (e.event?.map .told)).account id = (x.account id).perform id e := by
  have hlog : Overtaken id (x.add st (e.event?.map .told)).log ↔ Overtaken id x.log := by
    cases e <;> simp [add, Effect.event?, overtaken_concat]
  show st.ledger.account id _ = _
  rw [hlog, h, Ledger.account_perform]
  rfl

theorem account_reported (h : st.ledger = x.stage.ledger.perform e) (id : Nat) :
    (x.add st (e.event?.map .reported)).account id =
      (x.account id).report id (Expects x.log) e := by
  have hlog : Overtaken id (x.add st (e.event?.map .reported)).log ↔
      Overtaken id x.log ∨ e = .publish (.cancelled id) ∧ Expects x.log := by
    cases e <;> simp [add, Effect.event?, overtaken_concat]
  show st.ledger.account id _ = _
  rw [hlog, h, Ledger.account_perform]
  rfl

theorem account_launched (x : Logged σ) (text : String) (speed : Option Number.Single)
    (callback : Bool) (i : Nat) :
    (x.add (x.stage.launch text speed callback).2
      (some (.told (.started (x.stage.started + 1))))).account i =
        { x.account i with
          waiting :=
            (x.account i).waiting + if i = x.stage.started + 1 ∧ callback then 1 else 0 } := by
  have hlog (event : Event) :
      Overtaken i (x.log ++ (some (Mark.told event)).toList) ↔ Overtaken i x.log := by
    simp [overtaken_concat]
  show (x.stage.launch text speed callback).2.ledger.account i (Overtaken i (x.log ++ _)) = _
  rw [Stage.ledger_launch, Ledger.account_launch, hlog]
  rfl

/-- A step of a session on its own account or another's. -/
theorem account_step {effect : Option Effect}
    (h : st.ledger = effect.elim x.stage.ledger x.stage.ledger.perform) (id : Nat) :
    (x.add st ((effect.bind Effect.event?).map .reported)).account id =
      effect.elim (x.account id) ((x.account id).report id (Expects x.log)) := by
  cases effect with
  | none => exact account_add_none h id
  | some e => exact account_reported h id

/-! ## Logs tell all events -/

/-- A step publishes what is noted of it. -/
def Publishes (st st' : Stage σ) (mark : Option Mark) : Prop :=
  st'.ledger.events = st.ledger.events ++ (mark.bind Mark.event?).toList

theorem publishes_none {st st' : Stage σ} (h : st'.ledger = st.ledger) : Publishes st st' none := by
  simp [Publishes, h]

theorem publishes_perform (st : Stage σ) (e : Effect) {f : Event → Mark}
    (hf : ∀ event, (f event).event? = some event) :
    Publishes st (st.perform e) (e.event?.map f) := by
  rw [Publishes, Stage.ledger_perform]
  cases e with
  | complete session =>
    simp only [Ledger.perform]
    split <;> exact (List.append_nil _).symm
  | publish event => simp [Ledger.perform, Effect.event?, hf]
  | _ => exact (List.append_nil _).symm

theorem publishes_session {cancelled : Bool} {wake : Wake} {status status' : Status}
    {st st' : Stage σ} (h : status.step? cancelled wake st = some (status', st')) :
    Publishes st st' status.mark? := by
  cases status with
  | ready s =>
    cases s with
    | perform e next => cases h; exact publishes_perform st e fun _ => rfl
    | sleep => cases h; exact publishes_none (Stage.ledger_note st rfl)
    | _ => cases h; exact publishes_none rfl
  | asleep seconds next =>
    rw [Status.step?, Option.ite_none_left_eq_some] at h
    cases h.2
    exact publishes_none rfl
  | ended => cases h
  | crashed => cases h

theorem publishes_own {α : Type} {r r' : Request α} {st st' : Stage σ}
    (h : r.step? st = some (r', st')) : Publishes st st' (r.mark? st) := by
  cases r with
  | done => cases h
  | readState => cases h; exact (List.append_nil _).symm
  | take => cases h; exact publishes_none rfl
  | cancel next =>
    simp only [Request.step?] at h
    split at h <;> cases h <;> exact publishes_none rfl
  | await session next =>
    obtain ⟨outcome, -, heq⟩ := Option.map_eq_some_iff.mp h
    cases heq
    exact publishes_none rfl
  | render source tags speed next =>
    cases h
    exact publishes_none (Stage.ledger_render ..)
  | launch text speed callback next =>
    cases h
    exact (congrArg Ledger.events (Stage.ledger_launch ..)).trans rfl
  | perform e next => cases h; exact publishes_perform st e fun _ => rfl

/-- The events of a player are those of its log, in order. -/
def Tells (x : Logged σ) : Prop := x.log.filterMap Mark.event? = x.stage.ledger.events

theorem Tells.add (h : Tells x) {mark : Option Mark} (hst : Publishes x.stage st mark) :
    Tells (x.add st mark) := by
  show (x.log ++ mark.toList).filterMap Mark.event? = _
  rw [List.filterMap_append, h]
  refine (congrArg (_ ++ ·) ?_).trans hst.symm
  cases mark with
  | none => rfl
  | some mark => cases mark <;> rfl

theorem Tells.move (h : Tells x) {y : Logged σ} (hm : x.Move y) : Tells y := by
  cases hm with
  | session hj hs =>
    have hst := publishes_session hs
    exact h.add hst
  | clock => exact h
  | registry => exact h

theorem Tells.steps {α : Type} {before after : Request α × Logged σ} (h : Tells before.2)
    (hs : Steps before after) : Tells after.2 := by
  induction hs with
  | refl => exact h
  | tail _ hstep ih =>
    cases hstep with
    | own hown =>
      obtain ⟨st, hst, hafter⟩ := hown
      rw [hafter]
      exact ih.add (publishes_own hst)
    | move hm => exact ih.move hm

theorem Past.tells {registry : Registry} {clock : σ} {config : Config} {hub : HubRef}
    {start : Stage σ} (hnew : Stage.new? registry clock config hub = some start)
    (hx : Past start x) : Tells x := by
  induction hx with
  | begin => exact (congrArg Ledger.events (Stage.ledger_of_new? hnew)).symm
  | move _ hm ih => exact ih.move hm
  | call _ c hs ih => exact ih.steps hs

end Logged
end TextReveal
