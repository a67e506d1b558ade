import TextReveal.Proofs.Breaking
/-!
Sessions that are cut short, by their owner or by the clock: what such a session has done is the
beginning of what it does if nothing cuts it short, and it does nothing more.
-/
namespace TextReveal
open Number

/-- Whether an entry is something that a session does for all to see before its end: a text shown, a
step revealed, a hub fired or a wait asked for. -/
def Entry.isDeed : Entry → Bool
  | frame _ | published (.revealed ..) | asked _ | fired .. => true
  | _ => false

theorem Entry.isAct_of_isDeed {entry : Entry} (h : entry.isDeed) : entry.isAct := by
  cases entry with
  | heard => cases h
  | completed => cases h
  | _ => rfl

namespace Act

/-- The deeds among acts. -/
def deeds (acts : List Act) : List Entry :=
  (acts.filterMap note?).filter Entry.isDeed

theorem deeds_append (acts rest : List Act) : deeds (acts ++ rest) = deeds acts ++ deeds rest := by
  rw [deeds, List.filterMap_append, List.filter_append, deeds, deeds]

theorem deeds_cons (act : Act) (acts : List Act) :
    deeds (act :: acts) = deeds [act] ++ deeds acts :=
  deeds_append [act] acts

end Act

namespace Stage
variable {σ : Type}

def deeds (st : Stage σ) : List Entry := st.journal.toList.filter Entry.isDeed

theorem filter_record_isDeed (st : Stage σ) : st.record.filter Entry.isDeed = st.deeds :=
  filter_record_of_isAct (fun _ => Entry.isAct_of_isDeed) st

theorem deeds_of_record {st st' : Stage σ} {acts : List Act}
    (h : st'.record = st.record ++ acts.filterMap Act.note?) :
    st'.deeds = st.deeds ++ Act.deeds acts := by
  rw [← filter_record_isDeed, h, List.filter_append, filter_record_isDeed, Act.deeds]

theorem deeds_perform (st : Stage σ) (e : Effect) :
    (st.perform e).deeds = st.deeds ++ Act.deeds [.did e] := by
  refine deeds_of_record ?_
  rw [record_perform]
  cases hnote : (Act.did e).note? <;> simp [hnote]

theorem deeds_foldl_perform (st : Stage σ) (effects : List Effect) :
    (effects.foldl perform st).deeds = st.deeds ++ Act.deeds (effects.map .did) := by
  induction effects generalizing st with
  | nil => exact (List.append_nil _).symm
  | cons e effects ih =>
    rw [List.foldl_cons, ih, deeds_perform, List.append_assoc, ← Act.deeds_cons, List.map_cons]

/-- No ending of a session is a deed. -/
theorem deeds_ending (st : Stage σ) (id : Nat) (e : Ending) :
    ((e.effects id).foldl perform st).deeds = st.deeds := by
  have hnone : Act.deeds ((e.effects id).map .did) = [] := by cases e <;> rfl
  rw [deeds_foldl_perform, hnone, List.append_nil]

/-- What a session over the built-in handlers that is started on this stage does from its start to
its end. -/
def script (st : Stage σ) (hub : HubRef) (text : String) (speed : Option Single) : List Entry :=
  Act.deeds (Stance.acting hub st.player.config.unknownTags (st.course text speed))

end Stage

/-- An effect that only reports a failure of the clock, and fires nothing. -/
def LiveEffect.Reports : LiveEffect → Prop
  | .done reply => reply.signals = [] ∧ ∃ reason, reply.verdict = .failed (.clock reason)
  | _ => False

theorem Registry.failsTo_withBuiltins (hub : HubRef) :
    (withBuiltins hub).FailsTo LiveEffect.Reports := by
  intro name h hget
  cases get?_withBuiltins.mp hget with
  | pause =>
    intro ctx parameter
    simp only [Handler.openLive, Handler.pause]
    split
    · trivial
    · split
      · exact ⟨fun reason => ⟨rfl, reason, rfl⟩, trivial⟩
      · trivial
  | _ => exact .of_untimed rfl

namespace Session

/-- A session, not cancelled, that ends without another deed. -/
def Hides : Session → Prop
  | .ended _ => True
  | .perform effect next => Act.deeds [.did effect] = [] ∧ next.Hides
  | .check next => (next false).Hides
  | _ => False

theorem hides_abandon (id : Nat) : (abandon id).Hides := ⟨rfl, rfl, trivial⟩

theorem hides_ofLive {id : Nat} {effect : LiveEffect} {next : Context → Response → Session}
    (h : effect.Reports) : (ofLive id next effect).Hides := by
  cases effect with
  | done reply =>
    obtain ⟨hsignals, reason, hverdict⟩ := h
    rw [ofLive, hsignals, if_neg (by simp [hverdict])]
    show (judge id reply next).Hides
    rw [judge, hverdict]
    exact hides_abandon id
  | _ => cases h

theorem failsTo_start (id : Nat) (hub : HubRef) (policy : UnknownTags) (source : String)
    (tags : List Tag) (speed : Single) :
    (start id policy source tags speed).FailsTo Hides (.withBuiltins hub) :=
  failsTo_reveal (hides_abandon id) (fun _ _ => hides_ofLive) (Registry.failsTo_withBuiltins hub) ..

end Session

theorem Status.deeds_acts_of_isOver {status : Status} {r : Registry} (h : status.isOver) :
    Act.deeds (status.acts r) = [] := by
  cases status with
  | ended => rfl
  | crashed => rfl
  | _ => cases h

theorem Status.failsTo_of_isOver {Q : Session → Prop} {r : Registry} {status : Status}
    (h : status.isOver) : status.FailsTo Q r := by
  cases status with
  | ended => trivial
  | crashed => trivial
  | _ => cases h

namespace Stage
variable {σ : Type}

/-- What a turn comes to for a session with these acts before it: it has done the first of them, and
either has the rest before it or is over. -/
def Curtails (acts : List Act) (st : Stage σ) (after : Status × Stage σ) : Prop :=
  ∃ done rest, acts = done ++ rest ∧ after.2.deeds = st.deeds ++ Act.deeds done ∧
    (after.1.isOver ∨
      rest = after.1.acts st.registry ∧ after.1.FailsTo Session.Hides st.registry)

theorem Curtails.stops (status : Status) {st : Stage σ}
    (h : status.FailsTo Session.Hides st.registry) :
    Curtails (status.acts st.registry) st (status, st) :=
  ⟨[], _, rfl, (List.append_nil _).symm, .inr ⟨rfl, h⟩⟩

variable [TimeBase σ] {st : Stage σ}

theorem drive_hides {s : Session} (h : s.Hides) (through : Bool) (share : Nat) (st : Stage σ) :
    (drive ⟨false, through⟩ s share st).1.isOver ∧
      (drive ⟨false, through⟩ s share st).2.deeds = st.deeds := by
  induction s generalizing share st with
  | ended outcome => exact ⟨rfl, rfl⟩
  | perform e next ih =>
    obtain ⟨hover, hdeeds⟩ := ih h.2 share (st.perform e)
    rw [deeds_perform, h.1, List.append_nil] at hdeeds
    exact ⟨hover, hdeeds⟩
  | check next ih => exact ih false h share st
  | _ => cases h

theorem Goes.cutsShort {through : Bool} {acts : List Act} {after : Status × Stage σ}
    (h : Goes Session.Hides through st.registry acts st.record after) : Curtails acts st after := by
  cases h with
  | stops done hacts hfails _ hrecord =>
    exact ⟨done, _, hacts, deeds_of_record hrecord, .inr ⟨rfl, hfails⟩⟩
  | @fails s share st' done rest hacts hs _ hrecord =>
    obtain ⟨hover, hdeeds⟩ := drive_hides hs through share st'
    exact ⟨done, rest, hacts, hdeeds.trans (deeds_of_record hrecord), .inl hover⟩

theorem curtails_drive {s : Session} (h : s.FailsTo Session.Hides st.registry) (through : Bool)
    (share : Nat) : Curtails (s.acts st.registry) st (drive ⟨false, through⟩ s share st) :=
  (goes_drive h rfl rfl through share).cutsShort

theorem curtails_resume {status : Status} (h : status.FailsTo Session.Hides st.registry)
    (through : Bool) :
    Curtails (status.acts st.registry) st (resume ⟨false, through⟩ status st) := by
  cases status with
  | ended outcome => exact .stops (.ended outcome) trivial
  | crashed => exact .stops .crashed trivial
  | ready s => exact curtails_drive h through _
  | asleep seconds next =>
    obtain ⟨hfails, hnext⟩ := h
    simp only [resume]
    obtain ⟨answer, clock⟩ := TimeBase.again st.clock seconds
    rw [if_neg Bool.false_ne_true]
    cases answer with
    | elapsed =>
      have hgoes : (next .elapsed).FailsTo Session.Hides ({ st with clock } : Stage σ).registry :=
        hnext
      exact curtails_drive hgoes through _
    | failed reason =>
      obtain ⟨hover, hdeeds⟩ :=
        drive_hides (hfails reason) through waitsPerTurn { st with clock }
      exact ⟨[], _, rfl, hdeeds.trans (List.append_nil _).symm, .inl hover⟩
    | pending =>
      have hgoes : (Status.asleep seconds next).FailsTo Session.Hides
          ({ st with clock } : Stage σ).registry := ⟨hfails, hnext⟩
      exact .stops _ hgoes

/-- Whatever the clock answers, a session that its owner leaves alone has done the first of its
acts, and has the rest before it unless it is over. -/
theorem Unattended.exists_curtails {ok : σ → Prop} {id n : Nat} {status : Status} {start : Stage σ}
    (hjobs : start.jobs = [⟨id, status, false⟩])
    (hfails : status.FailsTo Session.Hides start.registry) (h : Unattended ok start n st) :
    ∃ status', st.jobs = [⟨id, status', false⟩] ∧ st.registry = start.registry ∧
      Curtails (status.acts start.registry) start (status', st) := by
  induction h with
  | begin => exact ⟨status, hjobs, rfl, .stops status hfails⟩
  | clock _ _ ih => exact ih
  | wait _ ih => exact ih
  | @turn n st _ through index ih =>
    obtain ⟨status', hjobs', hregistry, hcurtails⟩ := ih
    cases index with
    | succ index =>
      rw [turn_lone_succ hjobs']
      exact ⟨status', hjobs', hregistry, hcurtails⟩
    | zero =>
      obtain ⟨done, rest, hacts, hdeeds, hover | ⟨rfl, hgoes⟩⟩ := hcurtails
      · rw [turn_of_over (by simpa [hjobs'] using hover)]
        exact ⟨status', hjobs', hregistry, done, rest, hacts, hdeeds, .inl hover⟩
      -- What this turn does comes first of the rest, so it extends what has been done.
      · have hkeeps := keeps_resume ⟨false, through⟩ status' st
        rw [← hregistry] at hgoes hacts
        obtain ⟨done', rest', hacts', hdeeds', hgoes'⟩ := curtails_resume hgoes through
        rw [turn_lone hjobs']
        rw [hregistry] at hgoes' hacts
        refine ⟨_, rfl, hkeeps.registry.trans hregistry, done ++ done', rest', ?_, ?_, hgoes'⟩
        · rw [hacts, ← hregistry, hacts', List.append_assoc]
        · rw [Act.deeds_append, ← List.append_assoc, ← hdeeds]
          exact hdeeds'

end Stage

/-- A session that has no deed before it, should it be cancelled. -/
def Status.Hushed (id : Nat) (status : Status) : Prop :=
  status.isOver ∨ status.Leaves ∨ status = .ready (.complete id)

theorem Status.Fits.hushed {t : Ticket} {b : Block} {status : Status} (h : status.Fits t b false) :
    status.Hushed t.id := by
  cases status with
  | ready s =>
    obtain ⟨-, -, hsilent | ⟨-, rfl⟩⟩ := h
    · exact .inr (.inl hsilent)
    · exact .inr (.inr rfl)
  | asleep seconds next => exact .inr (.inl h.2.1)
  | ended => exact .inl rfl
  | crashed => exact .inl rfl

namespace Stage
variable {σ : Type} [TimeBase σ] {st st' : Stage σ} {w : Surroundings σ} {id : Nat}
  {status : Status}

theorem resume_of_isOver (h : status.isOver) (pace : Pace) (st : Stage σ) :
    resume pace status st = (status, st) := by
  cases status with
  | ended => rfl
  | crashed => rfl
  | _ => cases h

theorem resume_hushed (h : status.Hushed id) (through : Bool) (st : Stage σ) :
    (resume ⟨true, through⟩ status st).1.isOver ∧
      (resume ⟨true, through⟩ status st).2.deeds = st.deeds := by
  obtain hover | hleaves | rfl := h
  · rw [resume_of_isOver hover]
    exact ⟨hover, rfl⟩
  · rw [resume_leaves hleaves]
    exact ⟨rfl, rfl⟩
  · have hdrive : resume ⟨true, through⟩ (.ready (.complete id)) st =
        (.ended .completed, (Ending.completed.effects id).foldl perform st) := rfl
    rw [hdrive]
    exact ⟨rfl, deeds_ending st id .completed⟩

theorem moves_hushed (hjobs : st.jobs = [⟨id, status, true⟩]) (h : status.Hushed id)
    (hm : st.Moves w st') : ∃ status', st'.jobs = [⟨id, status', true⟩] ∧ status'.Hushed id ∧
      st'.started = st.started ∧ st'.deeds = st.deeds := by
  induction hm with
  | refl => exact ⟨status, hjobs, h, rfl, rfl⟩
  | @tail mid _ _ hm ih =>
    obtain ⟨status', hjobs', hhushed, hstarted, hdeeds⟩ := ih
    cases hm with
    | clock => exact ⟨status', hjobs', hhushed, hstarted, hdeeds⟩
    | registry => exact ⟨status', hjobs', hhushed, hstarted, hdeeds⟩
    | turn through index =>
      cases index with
      | succ index =>
        rw [turn_lone_succ hjobs']
        exact ⟨status', hjobs', hhushed, hstarted, hdeeds⟩
      | zero =>
        have hkeeps := keeps_resume ⟨true, through⟩ status' mid
        obtain ⟨hover, hsame⟩ := resume_hushed hhushed through mid
        rw [turn_lone hjobs']
        exact ⟨_, rfl, .inl hover, hkeeps.started.trans hstarted, hsame.trans hdeeds⟩

/-- A session is gone, and there has been no deed since. -/
structure Quits (id : Nat) (st gone : Stage σ) : Prop where
  jobs : gone.jobs = []
  started : id ≤ gone.started
  deeds : gone.deeds = st.deeds

theorem Quits.close {σ : Type} {id : Nat} {st gone : Stage σ} (h : Quits id st gone) (e : Ending) :
    Quits id st ((e.effects id).foldl perform gone) where
  jobs := (keeps_foldl_perform gone _).jobs.trans h.jobs
  started := (keeps_foldl_perform gone _).started ▸ h.started
  deeds := (deeds_ending gone id e).trans h.deeds

theorem Quits.only {σ : Type} {p : Status → Prop} {id : Nat} {st gone : Stage σ}
    (h : Quits id st gone) : Only p id gone :=
  ⟨h.started, by simp [h.jobs]⟩

/-- What the owner who has skipped a session shows in its place. -/
def skipTo {σ : Type} (st : Stage σ) (t : Ticket) : Stage σ :=
  let r := st.render t.source t.tags t.speed
  (.frame r.1 :: Ending.skipped.effects t.id).foldl perform r.2

theorem keeps_skipTo {σ : Type} (st : Stage σ) (t : Ticket) : Keeps st (st.skipTo t) :=
  (keeps_render st t.source t.tags t.speed).trans (keeps_foldl_perform _ _)

end Stage

namespace Request
variable {α σ : Type} [TimeBase σ] {w : Surroundings σ} {post : α → Stage σ → Prop} {st : Stage σ}
  {t : Ticket} {status : Status}
open Stage

/-- Waiting for a session that has been cancelled: there is no deed of it. -/
theorem ensures_await_hushed {next : Outcome → Request α}
    (hjobs : st.jobs = [⟨t.id, status, false⟩]) (hhushed : status.Hushed t.id)
    (hstarted : t.id ≤ st.started)
    (hnext : ∀ outcome gone, Quits t.id st gone →
      (next outcome).Ensures w (fun _ st' => st'.deeds = st.deeds) post gone) :
    (await t next).Ensures w (fun _ st' => st'.deeds = st.deeds) post
      ({ st with player := { st.player with active := none } }.cancelJob t.id) := by
  have hcancelled : ({ st with player := { st.player with active := none } }.cancelJob t.id).jobs =
      [⟨t.id, status, true⟩] := by simp [cancelJob, hjobs]
  intro st' hm
  obtain ⟨status', hjobs', -, hsame, hdeeds⟩ := moves_hushed hcancelled hhushed hm
  refine ⟨hdeeds, fun outcome _ => hnext outcome _ ⟨?_, ?_, hdeeds⟩⟩
  · simp [removeJob, hjobs']
  · exact hstarted.trans (Nat.le_of_eq hsame.symm)

theorem ensures_cancels_hushed {c : Command} (hc : c.cancels) (hactive : st.player.active = some t)
    (hjobs : st.jobs = [⟨t.id, status, false⟩]) (hhushed : status.Hushed t.id)
    (hstarted : t.id ≤ st.started) :
    c.request.Ensures w (fun _ st' => st'.deeds = st.deeds)
      (fun _ st' => ∃ gone, Quits t.id st gone ∧ st' = c.afterwards gone) st := by
  refine Command.ensures_of_cancels hc fun next hnext => ?_
  simp only [halt, Ensures, hactive]
  refine ensures_await_hushed hjobs hhushed hstarted fun outcome gone hquits => ?_
  split
  · exact ensures_performAll _ (hnext true _ fun _ => ⟨_, hquits.close .cancelled, rfl⟩)
  · exact hnext false gone fun _ => ⟨gone, hquits, rfl⟩

theorem ensures_skip_hushed (htyping : st.player.state = .typing)
    (hactive : st.player.active = some t) (hjobs : st.jobs = [⟨t.id, status, false⟩])
    (hhushed : status.Hushed t.id) (hstarted : t.id ≤ st.started) :
    Request.skip.Ensures w (fun _ st' => st'.deeds = st.deeds)
      (fun _ st' => ∃ gone, Quits t.id st gone ∧ (st' = gone ∨ st' = gone.skipTo t)) st := by
  rw [Request.skip, Ensures, if_neg (fun hstill => hstill htyping)]
  simp only [Ensures, hactive]
  refine ensures_await_hushed hjobs hhushed hstarted fun outcome gone hquits => ?_
  cases outcome with
  | completed => exact ⟨gone, hquits, .inl rfl⟩
  | cancelled =>
    simp only [Ensures, Option.getD_some]
    exact ensures_performAll (.frame _ :: Ending.skipped.effects t.id) ⟨gone, hquits, .inr rfl⟩

end Request

namespace Stage
variable {σ : Type} [TimeBase σ]

theorem Unattended.active {ok : σ → Prop} {n : Nat} {start st : Stage σ}
    (h : Unattended ok start n st) :
    st.player.active = start.player.active ∨ st.player.active = none := by
  induction h with
  | begin => exact .inl rfl
  | turn _ through index ih => rwa [active_turn]
  | clock _ _ ih => exact ih
  | wait _ _ => exact .inr rfl

/-- A session that is over has done all its deeds. -/
theorem Undisturbed.deeds_of_isOver {id n : Nat} {status status' : Status} {start st : Stage σ}
    (h : Undisturbed start n st) (hjobs : start.jobs = [⟨id, status, false⟩])
    (hjobs' : st.jobs = [⟨id, status', false⟩]) (hover : status'.isOver) :
    st.deeds = start.deeds ++ Act.deeds (status.acts start.registry) := by
  obtain ⟨last, hlast, -, done, hacts, hrecord⟩ := h.does hjobs
  obtain rfl : last = status' := by simpa [hjobs'] using hlast.symm
  rw [hacts, Act.deeds_append, Status.deeds_acts_of_isOver hover, List.append_nil]
  exact deeds_of_record hrecord

/-- A session that is over has no more deeds. -/
theorem Unattended.deeds_of_isOver {ok : σ → Prop} {id n : Nat} {status : Status}
    {start st : Stage σ} (hjobs : start.jobs = [⟨id, status, false⟩]) (hover : status.isOver)
    (h : Unattended ok start n st) : st.deeds = start.deeds := by
  obtain ⟨status', -, -, done, rest, hacts, hdeeds, -⟩ :=
    h.exists_curtails hjobs (Status.failsTo_of_isOver hover)
  have hnone := Status.deeds_acts_of_isOver (r := start.registry) hover
  rw [hacts, Act.deeds_append, List.append_eq_nil_iff] at hnone
  rw [show st.deeds = _ from hdeeds, hnone.1, List.append_nil]

theorem only_isOver {w : Surroundings σ} {id : Nat} {start st : Stage σ} {calls : List Command}
    (hstart : Only (·.isOver) id start) (h : Seen w start calls st) : Only (·.isOver) id st := by
  refine (stable_only (fun status pace st hover => ?_) id).seen hstart h
  rw [resume_of_isOver hover]
  exact hover

theorem deeds_opening {σ : Type} {hub : HubRef} (st : Stage σ)
    (hbuiltin : st.registry = .withBuiltins hub) (text : String) (speed : Option Single) :
    Act.deeds ((st.opening text speed).acts st.registry) = st.script hub text speed := by
  have hacts := Session.acts_start (st.started + 1) hub st.player.config.unknownTags text
    (speed.getD st.player.config.defaultSpeed)
  rw [Stance.flatten_rounds, ← hbuiltin] at hacts
  rw [opening, Status.acts, hacts, Act.deeds_append]
  exact List.append_nil _

end Stage

/-- A call that cuts the session of this number short. While it waits for the session there is no
deed, then it comes to what is the owner's own to do, and ever after the session is over or not
there. -/
structure Command.CutsShort {σ : Type} [TimeBase σ] (c : Command) (w : Surroundings σ) (id : Nat)
    (st : Stage σ) : Prop where
  waits : ∀ session next after, Request.Steps w (c.request, st) (.await session next, after) →
    after.deeds = st.deeds
  ends : ∀ answer after, Request.Steps w (c.request, st) (.done answer, after) →
    ∃ gone, st.Quits id gone ∧
      (after = c.afterwards gone ∨
        c = .skip ∧ ∃ t, st.player.active = some t ∧ after = gone.skipTo t)
  later : ∀ answer after, Request.Steps w (c.request, st) (.done answer, after) →
    ∀ calls after', after.Seen w calls after' → after'.Only (·.isOver) id

namespace Stage
variable {σ : Type} [TimeBase σ] {st : Stage σ} {t : Ticket} {status : Status}

theorem cutsShort (w : Surroundings σ) {c : Command}
    (hc : c.cancels ∨ c = .skip ∧ st.player.state = .typing)
    (hactive : st.player.active = some t) (hjobs : st.jobs = [⟨t.id, status, false⟩])
    (hhushed : status.Hushed t.id) (hstarted : t.id ≤ st.started) : c.CutsShort w t.id st := by
  have hensures : c.request.Ensures w (fun _ after => after.deeds = st.deeds)
      (fun _ after => ∃ gone, st.Quits t.id gone ∧
        (after = c.afterwards gone ∨
          c = .skip ∧ ∃ t, st.player.active = some t ∧ after = gone.skipTo t)) st := by
    obtain hc | ⟨rfl, htyping⟩ := hc
    · refine (Request.ensures_cancels_hushed hc hactive hjobs hhushed hstarted).mono ?_
      rintro answer after ⟨gone, hquits, rfl⟩
      exact ⟨gone, hquits, .inl rfl⟩
    · refine (Request.ensures_skip_hushed htyping hactive hjobs hhushed hstarted).mono ?_
      rintro answer after ⟨gone, hquits, rfl | rfl⟩
      · exact ⟨after, hquits, .inl rfl⟩
      · exact ⟨gone, hquits, .inr ⟨rfl, t, hactive, rfl⟩⟩
  refine ⟨fun session next after hs => ?_, fun answer after hs => ?_, ?_⟩
  · exact (hensures.steps hs after .refl).1
  · have hdone := hensures.steps hs
    exact hdone
  · intro answer after hs calls after' hseen
    have hdone := hensures.steps hs
    obtain ⟨gone, hquits, rfl | ⟨-, t, -, rfl⟩⟩ := hdone
    · exact only_isOver (hquits.only.afterwards c) hseen
    · exact only_isOver (hquits.only.keeps (keeps_skipTo gone t)) hseen

end Stage

/-- A session over the built-in handlers that is cut short. If nobody cancels it and no wait fails,
it does what is in its script; whatever the clock answers, what it has done by any time is the
beginning of that. Where it is over, be it for a wait that has failed, or is cancelled, by a call or
otherwise, it does nothing more. -/
theorem Stage.History.curtails {σ : Type} [TimeBase σ] {w : Surroundings σ} {registry : Registry}
    {clock : σ} {config : Config} {hub hub' : HubRef} {start st begun : Stage σ}
    {calls : List Command} {text : String} {speed : Option Single} {callback : Bool} {id : Nat}
    (hregistry : registry.Sound) (hw : ∀ r, w.registry r → r.Sound)
    (hnew : Stage.new? registry clock config hub = some start) (h : History w start calls st)
    (hs : Request.Steps w (.start text speed callback, st) (.done id, begun))
    (hbuiltin : begun.registry = .withBuiltins hub') :
    (∀ n after status, begun.Undisturbed n after → after.jobs = [⟨id, status, false⟩] →
      status.isOver → after.deeds = begun.deeds ++ begun.script hub' text speed) ∧
    ∀ n mid, begun.Unattended (fun _ => True) n mid → ∃ told status,
      told <+: begun.script hub' text speed ∧ mid.deeds = begun.deeds ++ told ∧
      mid.jobs = [⟨id, status, false⟩] ∧
      (status.isOver →
        (∀ n after, mid.Unattended (fun _ => True) n after → after.deeds = mid.deeds) ∧
        ∀ (w' : Surroundings σ) later after, mid.Seen w' later after →
          after.Only (·.isOver) id) ∧
      (∀ (w' : Surroundings σ) after, (mid.cancelJob id).Moves w' after →
        after.deeds = mid.deeds) ∧
      ∀ (w' : Surroundings σ) (c : Command), mid.player.active.isSome →
        (c.cancels ∨ c = .skip ∧ mid.player.state = .typing) → c.CutsShort w' id mid := by
  obtain ⟨before, past, b, -, rfl, rfl, -, hplays⟩ := h.plays_of_start hregistry hw hnew hs
  have hstill : before.registry = .withBuiltins hub' := hbuiltin
  have hscript : Act.deeds ((before.opening text speed).acts before.registry) =
      (before.launch text speed callback).2.script hub' text speed :=
    deeds_opening before hstill text speed
  have hfails : (before.opening text speed).FailsTo Session.Hides before.registry := by
    rw [hstill]
    exact Session.failsTo_start ..
  refine ⟨fun n after status hrun hjobs hover => ?_, fun n mid hrun => ?_⟩
  · rw [← hscript]
    exact hrun.deeds_of_isOver hplays.jobs hjobs hover
  · obtain ⟨status, hjobs, -, done, rest, hacts, hdeeds, -⟩ :=
      hrun.exists_curtails hplays.jobs hfails
    obtain ⟨b', j', hb', hplays', hfree⟩ := hrun.plays hplays
    obtain rfl : j' = ⟨before.started + 1, status, false⟩ :=
      List.singleton_inj.mp (hplays'.jobs.symm.trans hjobs)
    have hhushed := hplays'.fits.hushed
    have hstarted : before.started + 1 ≤ mid.started := by
      rw [hplays'.started, ← hplays.started]
      exact Nat.le_refl _
    refine ⟨Act.deeds done, status, ?_, hdeeds, hjobs, fun hover => ⟨?_, ?_⟩, ?_, ?_⟩
    · rw [← hscript, show (before.opening text speed).acts before.registry = _ from hacts,
        Act.deeds_append]
      exact List.prefix_append _ _
    · exact fun n after hrun' => hrun'.deeds_of_isOver hjobs hover
    · intro w' later after hseen
      refine only_isOver ⟨hstarted, ?_⟩ hseen
      simpa [hjobs] using hover
    · intro w' after hm
      obtain ⟨-, -, -, -, hsame⟩ := moves_hushed (by simp [cancelJob, hjobs]) hhushed hm
      exact hsame
    · intro w' c hactive hc
      obtain ⟨t, hactive⟩ := Option.isSome_iff_exists.mp hactive
      obtain hsame | hnone := hrun.active
      · cases hsame.symm.trans hactive
        exact cutsShort w' hc hactive hjobs hhushed hstarted
      · rw [hnone] at hactive
        cases hactive

/-- A text that is stopped in the delay behind its first character: its hub is not fired. -/
theorem Stage.History.curtails_of_stop :
    ∃ (start begun mid : Stage Clock) (told : List Entry), Registry.Sound (.withBuiltins .own) ∧
      Stage.new? (.withBuiltins .own) {} {} .own = some start ∧
      Request.Steps ⟨fun _ => True, Registry.Sound⟩ (.start "a[action=x]b" none true, start)
        (.done 1, begun) ∧
      begun.registry = .withBuiltins .own ∧ begun.Unattended (fun _ => True) 1 mid ∧
      (begun.script .own "a[action=x]b" none).length = 8 ∧ told.length = 3 ∧
      told <+: begun.script .own "a[action=x]b" none ∧ mid.deeds = begun.deeds ++ told ∧
      mid.player.active.isSome ∧ Command.stop.cancels ∧
      Command.stop.CutsShort ⟨fun _ => True, Registry.Sound⟩ 1 mid := by
  have hrun : ((Stage.new? (.withBuiltins .own) ({} : Clock) {} .own).bind fun start =>
      ((Request.start "a[action=x]b" none true).run? start).map fun begun =>
        ((begun.1, begun.2.turnGoesOn 0, (begun.2.turn false 0).player.active.isSome),
          (begun.2.script .own "a[action=x]b" none).length, begun.2.deeds.length,
          (begun.2.turn false 0).deeds.length)) = some ((1, true, true), 8, 1, 4) := by
    decide +kernel
  simp only [Option.bind_eq_some_iff, Option.map_eq_some_iff, Prod.mk.injEq] at hrun
  obtain ⟨start, hnew, ⟨id, begun⟩, hbegun, ⟨rfl, hgoes, hactive⟩, hscript, hbefore, hafter⟩ := hrun
  have hsound := Registry.sound_withBuiltins .own
  have hsteps := Request.steps_of_run? ⟨fun _ => True, Registry.Sound⟩ hbegun
  have hregistry : begun.registry = .withBuiltins .own := registry_of_start hnew hbegun
  have hrunning : begun.Unattended (fun _ => True) (0 + (begun.turnGoesOn 0).toNat)
      (begun.turn false 0) := .turn .begin false 0
  obtain ⟨-, hcut⟩ := History.curtails hsound (fun _ hr => hr) hnew .begin hsteps hregistry
  obtain ⟨told, status, hfirst, hdeeds, -, -, -, hcalls⟩ := hcut _ _ hrunning
  rw [hgoes] at hrunning
  refine ⟨start, begun, _, told, hsound, hnew, hsteps, hregistry, hrunning, hscript, ?_, hfirst,
    hdeeds, hactive, rfl, hcalls _ .stop hactive (.inl rfl)⟩
  rw [hdeeds, List.length_append, show begun.deeds.length = 1 from hbefore] at hafter
  omega

end TextReveal
