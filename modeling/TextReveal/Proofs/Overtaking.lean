import TextReveal.Proofs.Accounts
/-!
Sessions on threads of their own end once, unless one reports its own cancellation to an owner who
has just found it typing: the owner then gives it another ending.
-/
namespace TextReveal
open Mark

namespace Account
variable {id : Nat} {a : Account}

/-- Whether a session has ended twice is a matter of whether it has overtaken its owner. -/
structure Settled (id : Nat) (a : Account) : Prop where
  once : ¬a.overtaken → a.EndsOnce id
  twice : a.overtaken → a.EndsTwice id

theorem settled_fresh (id : Nat) : ({} : Account).Settled id :=
  ⟨fun _ => ⟨⟨.completed, List.nil_prefix⟩, fun h => nomatch h⟩, fun h => nomatch h⟩

theorem settled_of_once (hover : ¬a.overtaken) (h : a.EndsOnce id) : a.Settled id :=
  ⟨fun _ => h, fun hover' => absurd hover' hover⟩

theorem Settled.endsOnce_iff (h : a.Settled id) : a.EndsOnce id ↔ ¬a.overtaken :=
  ⟨fun honce hover => (h.twice hover).not_endsOnce honce, h.once⟩

end Account

namespace Logged
variable {α σ : Type}

/-- Nobody has ended twice without having overtaken the owner. -/
def Sound (x : Logged σ) : Prop := ∀ id, ¬(x.account id).overtaken → (x.account id).EndsOnce id

/-- What is true of all sessions but the last, whose number this is, and of those to come. -/
structure Others (id : Nat) (x : Logged σ) : Prop where
  started : x.stage.started = id
  settled : ∀ i, i ≠ id → (x.account i).Settled i
  fresh : ∀ i, id < i → x.account i = {}

/-- No session is left, and the last one has this account. -/
structure Leaves (id : Nat) (a : Account) (x : Logged σ) : Prop where
  jobs : x.stage.jobs = []
  active : x.stage.player.active = none
  others : Others id x
  account : x.account id = a

/-- The last session is there and has come so far. The owner has it or has taken it, and may expect
it to be typing. -/
structure Plays (id : Nat) (callback : Bool) (active : Option Ticket) (expects : Prop)
    (p : Progress) (x : Logged σ) : Prop where
  job : ∃ j, x.stage.jobs = [j] ∧ j.id = id ∧ j.status.At id p
  active : x.stage.player.active = active
  others : Others id x
  state : x.stage.player.state = p.state
  log : Expects x.log ↔ expects
  account : x.account id = p.account id callback expects

/-- No session is left. -/
def Rests (x : Logged σ) : Prop := ∃ id a, a.Settled id ∧ Leaves id a x

/-- What a player is like when no call is under way. -/
inductive Between (x : Logged σ) : Prop
  | rests (h : Rests x)
  | plays {callback : Bool} {t : Ticket} {p : Progress}
    (h : Plays t.id callback (some t) False p x)

variable {x y : Logged σ} {st : Stage σ} {id : Nat} {a : Account} {callback : Bool}
  {active : Option Ticket} {expects : Prop} {p : Progress}

theorem Others.of_account (h : Others id x) (hstarted : y.stage.started = x.stage.started)
    (haccount : ∀ i, i ≠ id → y.account i = x.account i) : Others id y where
  started := hstarted.trans h.started
  settled i hi := haccount i hi ▸ h.settled i hi
  fresh i hi := (haccount i (by omega)).trans (h.fresh i hi)

theorem Leaves.sound (h : Leaves id a x) (ha : ¬a.overtaken → a.EndsOnce id) : x.Sound := by
  intro i
  by_cases hi : i = id
  · rw [hi, h.account]
    exact ha
  · exact (h.others.settled i hi).once

theorem Leaves.settled (h : Leaves id a x) (ha : a.Settled id) (i : Nat) :
    (x.account i).Settled i := by
  by_cases hi : i = id
  · rw [hi, h.account]
    exact ha
  · exact h.others.settled i hi

/-- Where no session is left, only clock and registry change. -/
theorem Leaves.move (h : Leaves id a x) (hm : x.Move y) : Leaves id a y := by
  cases hm with
  | session hj => simp [h.jobs] at hj
  | clock => exact { h with others := { h.others with } }
  | registry => exact { h with others := { h.others with } }

theorem Leaves.keeps (h : Leaves id a x) (hkeeps : x.stage.Keeps y.stage) (b : Account)
    (hb : y.account id = b) (haccount : ∀ i, i ≠ id → y.account i = x.account i) :
    Leaves id b y :=
  ⟨hkeeps.jobs.trans h.jobs, hkeeps.active.trans h.active,
    h.others.of_account hkeeps.started haccount, hb⟩

theorem Leaves.perform (h : Leaves id a x) {e : Effect} (he : ∀ i, i ≠ id → e.ended? ≠ some i) :
    Leaves id (a.perform id e) (x.add (x.stage.perform e) (e.event?.map .told)) := by
  have htold := account_told (Stage.ledger_perform x.stage e)
  refine h.keeps (Stage.keeps_perform x.stage e) _ ((htold id).trans (by rw [h.account])) ?_
  intro i hi
  rw [htold, Account.perform_of_ne (he i hi)]

theorem Leaves.same (h : Leaves id a x) (hkeeps : x.stage.Keeps y.stage)
    (haccount : ∀ i, y.account i = x.account i) : Leaves id a y :=
  h.keeps hkeeps a ((haccount id).trans h.account) fun i _ => haccount i

theorem Leaves.looked (h : Leaves id a x) (state : State) :
    Leaves id a (x.add x.stage (some (.looked state))) :=
  h.same (.refl _) (account_looked rfl state)

theorem Plays.sound (h : Plays id callback active expects p x) : x.Sound := by
  intro i
  by_cases hi : i = id
  · rw [hi, h.account]
    exact fun _ => Progress.endsOnce_account ..
  · exact (h.others.settled i hi).once

theorem Plays.move (h : Plays id callback active expects p x) (hm : x.Move y) :
    ∃ p', Plays id callback active expects p' y := by
  obtain ⟨j, hjobs, hid, hat⟩ := h.job
  obtain ⟨clock, registry, rfl⟩ | ⟨effect, p', status, st, hat', hleads, hkeeps, hledger, rfl⟩ :=
    hm.of_lone hjobs hat
  · exact ⟨p, { h with others := { h.others with } }⟩
  · have haccount (i : Nat) : (x.add (st.withJobs [{ j with status }])
        ((effect.bind Effect.event?).map .reported)).account i =
          effect.elim (x.account i) ((x.account i).report i (Expects x.log)) :=
      account_step hledger i
    have hexpects := expects_reported x.log (effect.bind Effect.event?)
    refine ⟨p', ⟨_, rfl, hid, hat'⟩, hkeeps.active.trans h.active,
      h.others.of_account hkeeps.started fun i hi => ?_, ?_, hexpects.trans h.log, ?_⟩
    · rw [haccount, hleads.account_of_ne hi]
    · exact (congrArg Ledger.state hledger).trans (hleads.state _ h.state)
    · rw [haccount, h.account, propext h.log, hleads.account]

/-- What is true whatever others do, and allows nobody to end twice. -/
structure Steady (J : Logged σ → Prop) : Prop where
  move : ∀ {x y}, J x → x.Move y → J y
  sound : ∀ {x}, J x → x.Sound

theorem Steady.moves {J : Logged σ → Prop} (h : Steady J) (hx : J x) (hm : x.Moves y) : J y := by
  induction hm with
  | refl => exact hx
  | tail _ hm ih => exact h.move ih hm

theorem steady_leaves (ha : ¬a.overtaken → a.EndsOnce id) :
    Steady (Leaves id a : Logged σ → Prop) :=
  ⟨fun h hm => h.move hm, fun h => h.sound ha⟩

theorem steady_plays :
    Steady fun x : Logged σ => ∃ p, Plays id callback active expects p x :=
  ⟨fun ⟨_, h⟩ hm => h.move hm, fun ⟨_, h⟩ => h.sound⟩

theorem steady_rests : Steady (Rests : Logged σ → Prop) :=
  ⟨fun ⟨id, a, ha, h⟩ hm => ⟨id, a, ha, h.move hm⟩, fun ⟨_, _, ha, h⟩ => h.sound ha.once⟩

theorem steady_between : Steady (Between : Logged σ → Prop) where
  move h hm := by
    cases h with
    | rests h => exact .rests (steady_rests.move h hm)
    | plays h =>
      obtain ⟨p, h'⟩ := h.move hm
      exact .plays h'
  sound h := by
    cases h with
    | rests h => exact steady_rests.sound h
    | plays h => exact h.sound

theorem Plays.looked (h : Plays id callback active False p x) :
    Plays id callback active (x.stage.player.state = .typing) p
      (x.add x.stage (some (.looked x.stage.player.state))) := by
  have hexpects : Expects (x.log ++ [.looked x.stage.player.state]) ↔
      x.stage.player.state = .typing := by
    simp [expects_concat, isOwners]
  refine ⟨h.job, h.active, h.others.of_account rfl fun i _ => account_looked rfl _ i, h.state,
    hexpects, ?_⟩
  rw [account_looked rfl, h.account]
  refine Progress.account_congr id callback fun hp => ?_
  -- A session that has reported its end is not found typing.
  rw [h.state, hp]
  exact iff_of_false not_false (by decide)

/-- The owner has taken the session, or has cancelled it, too. -/
theorem Plays.taken (h : Plays id callback active expects p x) (st : Stage σ)
    (hledger : st.ledger = x.stage.ledger) (hstarted : st.started = x.stage.started)
    (hactive : st.player.active = none)
    (hjob : ∀ j, x.stage.jobs = [j] → ∃ cancelled, st.jobs = [{ j with cancelled }]) :
    Plays id callback none expects p (x.add st none) := by
  have haccount := account_add_none (x := x) hledger
  have hlog : (x.add st none).log = x.log := List.append_nil _
  obtain ⟨j, hjobs, hid, hat⟩ := h.job
  obtain ⟨cancelled, hjob⟩ := hjob j hjobs
  refine ⟨⟨_, hjob, hid, hat⟩, hactive, h.others.of_account hstarted fun i _ => haccount i,
    (congrArg Ledger.state hledger).trans h.state, ?_, (haccount id).trans h.account⟩
  rw [hlog, h.log]

/-- The session has been waited for. -/
theorem Plays.leave (h : Plays id callback none expects p x) {outcome : Outcome}
    (ho : x.stage.outcome? id = some outcome) :
    Leaves id (p.account id callback expects) (x.add (x.stage.removeJob id) none) ∧
      p.IsOver outcome := by
  obtain ⟨j, hjobs, rfl, hat⟩ := h.job
  have haccount (i : Nat) : (x.add (x.stage.removeJob j.id) none).account i = x.account i :=
    account_add_none rfl i
  have hj : x.stage.job? j.id = some j := by simp [Stage.job?, hjobs]
  rw [Stage.outcome?, hj] at ho
  refine ⟨⟨?_, h.active, h.others.of_account rfl fun i _ => haccount i, ?_⟩, hat.isOver ho⟩
  · simp [add, Stage.removeJob, hjobs]
  · rw [haccount, h.account]

theorem Leaves.launch (h : Leaves id a x) (ha : a.Settled id) (text : String)
    (speed : Option Number.Single) (callback : Bool) :
    Plays (x.stage.started + 1) callback
      (some ⟨x.stage.started + 1, text, Tag.lex text,
        speed.getD x.stage.player.config.defaultSpeed⟩) False .going
      (x.add (x.stage.launch text speed callback).2
        (some (.told (.started (x.stage.started + 1))))) := by
  have haccount := account_launched x text speed callback
  have hlog : ¬Expects (x.log ++ [.told (.started (x.stage.started + 1))]) := by
    simp [expects_concat, isOwners]
  have hother {i : Nat} (hi : i ≠ x.stage.started + 1) :=
    (haccount i).trans (show _ = x.account i by simp [hi])
  have hfresh : x.account (x.stage.started + 1) = {} :=
    h.others.fresh _ (by rw [h.others.started]; omega)
  have hjobs : (x.stage.launch text speed callback).2.jobs =
      [⟨x.stage.started + 1, x.stage.opening text speed, false⟩] :=
    (Stage.jobs_launch ..).trans (by rw [h.jobs]; rfl)
  refine ⟨⟨_, hjobs, rfl, .ready (Session.undecided_start ..)⟩, rfl, ⟨rfl, ?_, ?_⟩, rfl,
    iff_of_false hlog not_false, ?_⟩
  · intro i hi
    exact hother hi ▸ h.settled ha i
  · intro i hi
    rw [hother (by omega)]
    exact h.others.fresh i (by rw [← h.others.started]; omega)
  · rw [haccount, hfresh]
    simp [Progress.account, Progress.events]

end Logged

namespace Request
variable {α σ : Type} {post : α → Logged σ → Prop} {x : Logged σ} {id : Nat} {a : Account}
open Logged

/-- What a request comes to on threads: nobody ends twice on the way, and `post` holds of its
result. -/
def Secures (post : α → Logged σ → Prop) (r : Request α) (x : Logged σ) : Prop :=
  ∀ after, Logged.Steps (r, x) after →
    after.2.Sound ∧ ∀ answer, after.1 = .done answer → post answer after.2

theorem secures_done {J : Logged σ → Prop} (hJ : Steady J) (hx : J x) {answer : α}
    (hpost : ∀ y, J y → post answer y) : (done answer).Secures post x := by
  intro after hs
  obtain ⟨hsame, hms⟩ | ⟨y, mid, hms, ⟨st, hown, -⟩, -⟩ := cases_of_steps hs
  · refine ⟨hJ.sound (hJ.moves hx hms), fun answer' hanswer => ?_⟩
    cases hsame.trans hanswer
    exact hpost _ (hJ.moves hx hms)
  · cases hown

/-- A request goes on with a step of its own, whatever others have done before. -/
theorem secures_of_step {J : Logged σ → Prop} (hJ : Steady J) (hx : J x) {r : Request α}
    (hr : ∀ answer, r ≠ .done answer)
    (h : ∀ y r' st, J y → r.step? y.stage = some (r', st) →
      r'.Secures post (y.add st (r.mark? y.stage))) : r.Secures post x := by
  intro after hs
  obtain ⟨hsame, hms⟩ | ⟨y, ⟨r', z⟩, hms, ⟨st, hstep, hz⟩, hrest⟩ := cases_of_steps hs
  · exact ⟨hJ.sound (hJ.moves hx hms), fun answer hanswer => absurd (hsame.trans hanswer) (hr _)⟩
  · obtain rfl : z = _ := hz
    exact h y r' st (hJ.moves hx hms) hstep after hrest

theorem secures_performAll {effects : List Effect} {next : Request α} (h : Leaves id a x)
    (hsettled : (effects.foldl (Account.perform id) a).Settled id)
    (honly : ∀ e ∈ effects, ∀ i, i ≠ id → e.ended? ≠ some i)
    (hnext : ∀ y, Rests y → next.Secures post y) : (performAll effects next).Secures post x := by
  induction effects generalizing x a with
  | nil => exact hnext x ⟨id, a, hsettled, h⟩
  | cons e effects ih =>
    have honce (hover : ¬a.overtaken) : a.EndsOnce id :=
      Account.EndsOnce.of_foldl (hsettled.once (by rwa [Account.overtaken_foldl]))
    refine secures_of_step (steady_leaves honce) h nofun ?_
    rintro y r' st hy ⟨⟩
    rw [List.forall_mem_cons] at honly
    exact ih (hy.perform honly.1) hsettled honly.2

theorem secures_render {source : String} {tags : List Tag} {speed : Option Number.Single}
    {next : String → Request α} (h : Leaves id a x) (ha : ¬a.overtaken → a.EndsOnce id)
    (hnext : ∀ text y, Leaves id a y → (next text).Secures post y) :
    (render source tags speed next).Secures post x := by
  refine secures_of_step (steady_leaves ha) h nofun ?_
  rintro y r' st hy ⟨⟩
  exact hnext _ _ (hy.same (Stage.keeps_render ..) (account_add_none (Stage.ledger_render ..)))

variable {callback : Bool} {expects : Prop} {p : Progress} {t : Ticket}

theorem settled_account (h : ¬(p = .reported ∧ expects)) :
    (p.account id callback expects).Settled id :=
  Account.settled_of_once h (Progress.endsOnce_account ..)

theorem secures_done_of_rests {answer : α} (h : Rests x) :
    (done answer).Secures (fun _ y => Between y) x :=
  secures_done steady_rests h fun _ hy => .rests hy

theorem secures_await {next : Outcome → Request α} (h : Plays t.id callback none expects p x)
    (hnext : ∀ (p : Progress) outcome y, p.IsOver outcome →
      Leaves t.id (p.account t.id callback expects) y → (next outcome).Secures post y) :
    (await t next).Secures post x := by
  refine secures_of_step steady_plays ⟨p, h⟩ nofun ?_
  rintro y r' st ⟨p', hy⟩ hstep
  obtain ⟨outcome, ho, heq⟩ := Option.map_eq_some_iff.mp hstep
  cases heq
  obtain ⟨hleaves, hover⟩ := hy.leave ho
  exact hnext p' outcome _ hover hleaves

theorem secures_cancel_rests {next : Option Ticket → Request α} (h : Rests x)
    (hnext : ∀ y, Rests y → (next none).Secures post y) : (cancel next).Secures post x := by
  refine secures_of_step steady_rests h nofun ?_
  rintro y r' st hy hstep
  obtain ⟨id, a, ha, hleaves⟩ := hy
  simp only [step?, hleaves.active] at hstep
  cases hstep
  exact hnext (y.add y.stage none) ⟨id, a, ha, hleaves.same (.refl _) (account_add_none rfl)⟩

/-- A session that is cancelled is waited for. -/
theorem secures_cancel_plays {next : Option Ticket → Request α}
    (h : Plays t.id callback (some t) expects p x)
    (hnext : ∀ p y, Plays t.id callback none expects p y → (next (some t)).Secures post y) :
    (cancel next).Secures post x := by
  refine secures_of_step steady_plays ⟨p, h⟩ nofun ?_
  rintro y r' st ⟨p', hy⟩ hstep
  simp only [step?, hy.active] at hstep
  cases hstep
  obtain ⟨j, hjobs, hid, -⟩ := hy.job
  refine hnext p' _ (hy.taken _ rfl rfl rfl fun j' hj' => ⟨true, ?_⟩)
  cases hjobs.symm.trans hj'
  simp [Stage.cancelJob, hjobs, hid]

theorem settled_ending {e : Ending} (he : e ≠ .completed) (hp : p = .going ∨ p = .reported)
    (callback : Bool) (hexpects : expects) :
    ((e.effects id).foldl (Account.perform id) (p.account id callback expects)).Settled id := by
  constructor
  · rw [Account.overtaken_foldl]
    intro hover
    obtain rfl : p = .going := hp.resolve_right fun hp => hover ⟨hp, hexpects⟩
    refine ⟨⟨e, ?_⟩, ?_⟩ <;> cases e <;> cases callback <;>
      simp [Ending.effects, Ending.events, Ending.isCompletion, Account.perform, Event.ended?,
        Progress.account, Progress.events]
  · rw [Account.overtaken_foldl]
    rintro ⟨rfl, -⟩
    refine ⟨e, he, ?_⟩
    cases e <;> cases callback <;>
      simp [Ending.effects, Ending.events, Ending.isCompletion, Account.perform, Event.ended?,
        Progress.account, Progress.events]

/-- The effects of an ending concern the session that it is the ending of. -/
theorem forall_effects_ended? (e : Ending) (id : Nat) :
    ∀ effect ∈ e.effects id, effect.ended? = none ∨ effect.ended? = some id := by
  cases e <;> simp [Ending.effects, Ending.events, Ending.isCompletion, Effect.ended?, Event.ended?]

theorem secures_ending {e : Ending} {next : Request α} (he : e ≠ .completed)
    (hp : p = .going ∨ p = .reported) (hexpects : expects)
    (h : Leaves id (p.account id callback expects) x)
    (hnext : ∀ y, Rests y → next.Secures post y) :
    (performAll (e.effects id) next).Secures post x := by
  refine secures_performAll h (settled_ending he hp callback hexpects) ?_ hnext
  intro effect heffect i hi
  obtain hnone | hsome := forall_effects_ended? e id effect heffect
  · simp [hnone]
  · simpa [hsome] using hi.symm

/-- Whatever is on the stage, a halt leaves no session there. -/
theorem secures_halt (next : Bool → Request α) (h : Between x)
    (hnext : ∀ stopped y, Rests y → (next stopped).Secures post y) :
    (halt next).Secures post x := by
  refine secures_of_step steady_between h nofun ?_
  rintro y r' st hy ⟨⟩
  cases hy with
  | rests hy =>
    obtain ⟨id, a, ha, hleaves⟩ := hy
    exact secures_cancel_rests ⟨id, a, ha, hleaves.looked _⟩ fun z hz => hnext false z hz
  | @plays callback t p hy =>
    refine secures_cancel_plays hy.looked fun p z hz => secures_await hz ?_
    intro p outcome z hover hleaves
    by_cases hreport : outcome = .cancelled ∧ y.stage.player.state = .typing
    · obtain ⟨rfl, htyping⟩ := hreport
      rw [if_pos ⟨rfl, htyping⟩]
      exact secures_ending (e := .cancelled) nofun hover htyping hleaves fun z hz => hnext true z hz
    · rw [if_neg hreport]
      refine hnext false z ⟨t.id, _, settled_account ?_, hleaves⟩
      rintro ⟨rfl, htyping⟩
      cases outcome with
      | completed => cases hover
      | cancelled => exact hreport ⟨rfl, htyping⟩

theorem secures_launch {text : String} {speed : Option Number.Single} {next : Nat → Request α}
    (h : Rests x) (hnext : ∀ id y, Between y → (next id).Secures post y) :
    (launch text speed callback next).Secures post x := by
  refine secures_of_step steady_rests h nofun ?_
  rintro y r' st ⟨id, a, ha, hy⟩ ⟨⟩
  exact hnext _ _ (.plays (t := ⟨_, text, _, _⟩) (hy.launch ha text speed callback))

theorem secures_skip (h : Between x) : skip.Secures (fun _ y => Between y) x := by
  refine secures_of_step steady_between h nofun ?_
  rintro y r' st hy ⟨⟩
  dsimp only
  cases hy with
  | rests hy =>
    obtain ⟨id, a, ha, hleaves⟩ := hy
    have hlooked : Rests (y.add y.stage (some (.looked y.stage.player.state))) :=
      ⟨id, a, ha, hleaves.looked _⟩
    split
    · exact secures_done_of_rests hlooked
    · exact secures_cancel_rests hlooked fun z hz => secures_done_of_rests hz
  | @plays callback t p hy =>
    split
    · rename_i hstate
      have hlooked := hy.looked
      rw [eq_false hstate] at hlooked
      exact secures_done steady_plays ⟨p, hlooked⟩ fun _ ⟨_, hz⟩ => .plays hz
    -- The session was still typing, so it is cancelled, and how it has ended tells the rest.
    · rename_i hstate
      have htyping : y.stage.player.state = .typing := not_not.mp hstate
      refine secures_cancel_plays hy.looked fun p z hz => secures_await hz ?_
      intro p outcome z hover hleaves
      cases outcome with
      | completed =>
        obtain rfl : p = .heard := hover
        exact secures_done_of_rests ⟨t.id, _, settled_account (by simp), hleaves⟩
      | cancelled =>
        refine secures_render hleaves (fun _ => Progress.endsOnce_account ..) fun text z hz => ?_
        refine secures_of_step (steady_leaves fun _ => Progress.endsOnce_account ..) hz nofun ?_
        rintro z' r'' st' hz' ⟨⟩
        exact secures_ending (e := .skipped) nofun hover htyping
          (hz'.perform (e := .frame text) fun _ _ => nofun) fun z hz => secures_done_of_rests hz

theorem secures_join (h : Between x) : join.Secures (fun _ y => Between y) x := by
  refine secures_of_step steady_between h nofun ?_
  rintro y r' st hy ⟨⟩
  cases hy with
  | rests hy =>
    obtain ⟨id, a, ha, hleaves⟩ := hy
    have htaken : Leaves id a
        (y.add { y.stage with player := { y.stage.player with active := none } } none) :=
      ⟨hleaves.jobs, rfl, hleaves.others.of_account rfl fun i _ => account_add_none rfl i,
        (account_add_none rfl id).trans hleaves.account⟩
    rw [hleaves.active]
    exact secures_done_of_rests ⟨id, a, ha, htaken⟩
  | @plays callback t p hy =>
    rw [hy.active]
    have htaken := hy.taken { y.stage with player := { y.stage.player with active := none } }
      rfl rfl rfl fun j hj => ⟨j.cancelled, hj⟩
    refine secures_await htaken fun p outcome z _ hleaves => ?_
    exact secures_done_of_rests ⟨t.id, _, settled_account (by simp), hleaves⟩

theorem secures_command (h : Between x) (c : Command) :
    c.request.Secures (fun _ y => Between y) x := by
  cases c with
  | start text speed callback =>
    exact secures_halt (fun _ => launch text speed callback done) h fun _ y hy =>
      secures_launch hy fun id z hz => secures_done steady_between hz fun _ hz => hz
  | skip => exact secures_skip h
  | stop => exact secures_halt done h fun _ y hy => secures_done_of_rests hy
  | setInstant text =>
    refine secures_halt (fun _ => render text (Tag.lex text) none fun shown =>
      performAll [.frame shown, .setState .completed] (done ())) h fun _ y hy => ?_
    obtain ⟨id, a, ha, hleaves⟩ := hy
    refine secures_render hleaves ha.once fun text z hz => ?_
    exact secures_performAll hz ha (by simp [Effect.ended?]) fun z hz =>
      secures_done_of_rests hz
  | join => exact secures_join h

end Request

namespace Logged
variable {σ : Type} {registry : Registry} {clock : σ} {config : Config} {hub : HubRef}
  {start : Stage σ} {x : Logged σ}

theorem rests_of_new? (h : Stage.new? registry clock config hub = some start) :
    Rests ⟨start, []⟩ := by
  have haccount (id : Nat) : Logged.account ⟨start, []⟩ id = {} := by
    simp [account, Stage.ledger_of_new? h, Ledger.account, Overtaken]
  obtain ⟨channel, -, rfl⟩ := Option.map_eq_some_iff.mp h
  exact ⟨0, {}, Account.settled_fresh 0, rfl, rfl,
    ⟨rfl, fun i _ => haccount i ▸ Account.settled_fresh i, fun i _ => haccount i⟩, haccount 0⟩

theorem Past.between (hnew : Stage.new? registry clock config hub = some start)
    (hx : Past start x) : Between x := by
  induction hx with
  | begin => exact .rests (rests_of_new? hnew)
  | move _ hm ih => exact steady_between.move ih hm
  | call _ c hs ih => exact (Request.secures_command ih c _ hs).2 _ rfl

theorem Between.settled (h : Between x) (id : Nat) : (x.account id).Settled id := by
  cases h with
  | rests h =>
    obtain ⟨last, a, ha, hleaves⟩ := h
    exact hleaves.settled ha id
  | @plays callback t p h =>
    by_cases hid : id = t.id
    · rw [hid, h.account]
      exact Account.settled_of_once (fun hover => hover.2) (Progress.endsOnce_account ..)
    · exact h.others.settled id hid

/-- Between calls, a session has ended once at most, unless it has overtaken its owner: then it has
ended twice. During a call, too, nobody else ends more than once. -/
theorem Past.endsOnce_unless_overtaken (hnew : Stage.new? registry clock config hub = some start)
    (hx : Past start x) :
    (∀ id, (x.account id).EndsOnce id ↔ ¬Overtaken id x.log) ∧
      (∀ id, Overtaken id x.log → (x.account id).EndsTwice id) ∧
      ∀ (c : Command) (after : Request c.Answer × Logged σ), Steps (c.request, x) after →
        ∀ id, ¬Overtaken id after.2.log → (after.2.account id).EndsOnce id := by
  have hbetween := hx.between hnew
  exact ⟨fun id => (hbetween.settled id).endsOnce_iff, fun id => (hbetween.settled id).twice,
    fun c after hs => (Request.secures_command hbetween c after hs).1⟩

/-- A session over a single character, to the point where its clock fails. -/
def failing : List Turn :=
  .replicate 3 .owner ++ .replicate 6 (.session 0 .elapsed) ++ [.session 0 (.failed "")]

/-- The owner finds the session typing, and cancels it when the session has looked whether it is
cancelled. The session reports its end, and the owner takes `more` steps behind it. -/
def overtaking (more : Nat) : List Turn :=
  [.owner, .session 0 .elapsed, .owner] ++ .replicate 3 (.session 0 .elapsed) ++
    .replicate more .owner

theorem exists_overtaking_stop : ∃ start x,
    Stage.new? (.withBuiltins .own) () {} .own = some start ∧ Past start x ∧
      x.stage.ledger.events = [.started 1, .revealed "a" 0, .cancelled 1, .cancelled 1] ∧
      x.log = [.looked .idle, .told (.started 1), .reported (.revealed "a" 0), .looked .typing,
        .reported (.cancelled 1), .told (.cancelled 1)] := by
  have hrun : ((Stage.new? (.withBuiltins .own) () {} .own).bind fun start =>
      (failing.foldlM follow? (Request.start "a" none true, ⟨start, []⟩)).bind fun begun =>
        ((overtaking 3).foldlM follow? (Request.stop, begun.2)).map fun stopped =>
          (begun.1.answer?, stopped.1.answer?, stopped.2.stage.ledger.events, stopped.2.log)) =
      some (some 1, some true, [.started 1, .revealed "a" 0, .cancelled 1, .cancelled 1],
        [.looked .idle, .told (.started 1), .reported (.revealed "a" 0), .looked .typing,
          .reported (.cancelled 1), .told (.cancelled 1)]) := by
    decide +kernel
  simp only [Option.bind_eq_some_iff, Option.map_eq_some_iff, Prod.mk.injEq] at hrun
  obtain ⟨start, hnew, ⟨r, begun⟩, hbegun, ⟨r', x⟩, hstopped, hr, hr', hevents, hlog⟩ := hrun
  have hbegan := Past.begin.follow (.start "a" none true) hbegun hr
  exact ⟨start, x, hnew, hbegan.follow .stop hstopped hr', hevents, hlog⟩

/-- A stop reports the session again that has overtaken it. -/
theorem Past.endsTwice_of_stop : ∃ start x,
    Stage.new? (.withBuiltins .own) () {} .own = some start ∧ Past start x ∧
      Overtaken 1 x.log ∧ (x.account 1).EndsTwice 1 := by
  obtain ⟨start, x, hnew, hx, -, hlog⟩ := exists_overtaking_stop
  have hover : Overtaken 1 x.log := by
    rw [hlog]
    exact ⟨[.looked .idle, .told (.started 1), .reported (.revealed "a" 0), .looked .typing],
      [.told (.cancelled 1)], rfl, rfl⟩
  exact ⟨start, x, hnew, hx, hover, (hx.endsOnce_unless_overtaken hnew).2.1 1 hover⟩

/-- A session may be cancelled twice, by itself and by a stop. It may be cancelled by itself, and
skipped and completed by its owner, its callback run. -/
theorem Past.cancelled_and_completed : ∃ start,
    Stage.new? (.withBuiltins .own) () {} .own = some start ∧
      (∃ x, Past start x ∧
        x.stage.ledger.events = [.started 1, .revealed "a" 0, .cancelled 1, .cancelled 1]) ∧
      ∃ x, Past start x ∧
        x.stage.ledger.events =
          [.started 1, .revealed "a" 0, .cancelled 1, .skipped 1, .completed 1] ∧
        x.stage.ledger.ran = [1] := by
  obtain ⟨start, x, hnew, hx, hevents, -⟩ := exists_overtaking_stop
  refine ⟨start, hnew, ⟨x, hx, hevents⟩, ?_⟩
  have hrun : ((Stage.new? (.withBuiltins .own) () {} .own).bind fun start =>
      (failing.foldlM follow? (Request.start "a" none true, ⟨start, []⟩)).bind fun begun =>
        ((overtaking 7).foldlM follow? (Request.skip, begun.2)).map fun skipped =>
          (begun.1.answer?, skipped.1.answer?, skipped.2.stage.ledger.events,
            skipped.2.stage.ledger.ran)) =
      some (some 1, some true,
        [.started 1, .revealed "a" 0, .cancelled 1, .skipped 1, .completed 1], [1]) := by
    decide +kernel
  rw [hnew] at hrun
  simp only [Option.bind_some, Option.bind_eq_some_iff, Option.map_eq_some_iff, Prod.mk.injEq]
    at hrun
  obtain ⟨⟨r, begun⟩, hbegun, ⟨r', x⟩, hskipped, hr, hr', hevents, hran⟩ := hrun
  have hbegan := Past.begin.follow (.start "a" none true) hbegun hr
  exact ⟨x, hbegan.follow .skip hskipped hr', hevents, hran⟩

end Logged
end TextReveal
