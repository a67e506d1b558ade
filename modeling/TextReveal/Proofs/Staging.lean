import TextReveal.Proofs.Interleaving
import TextReveal.Proofs.Orderly
/-!
Stages whose sessions keep order: at most one session is there, and its block is as far as it is.
-/
namespace TextReveal
open Ledger

/-- How far the session of a ticket may be that has published this block. Where it may stop, it
leaves in silence when it is cancelled, and its ending to whoever cancelled it. -/
def Status.Fits (t : Ticket) (b : Block) (cancelled : Bool) : Status → Prop
  | .ready s =>
    b.ending = none ∧ s.Orderly t.id ∧ (s.Silent ∨ t.source = "" ∧ s = .complete t.id)
  | .asleep _ next =>
    b.ending = none ∧ (next .cancelled).Silent ∧ ∀ wake, (next wake).Orderly t.id
  | .ended .completed => b.ending = some .completed
  | .ended .cancelled => b.ending = if cancelled then none else some .cancelled
  | .crashed => False

/-- A session that ends otherwise than in silence has closed its block. -/
theorem Status.Fits.closed {t : Ticket} {b : Block} {cancelled : Bool} {outcome : Outcome}
    (h : (Status.ended outcome).Fits t b cancelled)
    (hloud : outcome = .completed ∨ cancelled = false) : b.ending ≠ none := by
  cases outcome with
  | completed =>
    rw [show b.ending = some .completed from h]
    simp
  | cancelled =>
    obtain hloud | rfl := hloud
    · cases hloud
    · rw [show b.ending = some .cancelled from h]
      simp

theorem Status.Fits.not_ended {t : Ticket} {b : Block} {outcome : Outcome}
    (hopen : b.ending = none) : ¬(Status.ended outcome).Fits t b false :=
  fun h => h.closed (.inr rfl) hopen

theorem Status.Fits.ended {t : Ticket} {b : Block} {cancelled : Bool} {status : Status}
    {outcome : Outcome}
    (h : status.Fits t b cancelled) (ho : status.outcome? = some outcome) :
    (Status.ended outcome).Fits t b cancelled := by
  cases status <;> cases ho
  · exact h
  · cases h

theorem Status.Fits.cancel {t : Ticket} {b : Block} {status : Status} (h : status.Fits t b false)
    (hopen : b.ending = none) : status.Fits t b true := by
  cases status with
  | ready => exact h
  | asleep => exact h
  | ended => exact absurd h (not_ended hopen)
  | crashed => exact h

/-- A session that leaves in silence when it goes on, for it is cancelled. -/
def Status.Leaves : Status → Prop
  | .ready s => s.Silent
  | .asleep _ next => (next .cancelled).Silent
  | .ended outcome => outcome = .cancelled
  | .crashed => False

theorem Status.Fits.not_isOver {t : Ticket} {b : Block} {status : Status}
    (h : status.Fits t b false) (hopen : b.ending = none) : status.isOver = false := by
  cases status with
  | ready => rfl
  | asleep => rfl
  | ended => exact absurd h (not_ended hopen)
  | crashed => cases h

theorem Status.Fits.leaves {t : Ticket} {b : Block} {status : Status} (h : status.Fits t b false)
    (hopen : b.ending = none) (hsource : t.source ≠ "") : status.Leaves := by
  cases status with
  | ready s =>
    obtain hsilent | ⟨hblank, -⟩ := h.2.2
    · exact hsilent
    · exact absurd hblank hsource
  | asleep => exact h.2.1
  | ended => exact absurd h (not_ended hopen)
  | crashed => exact h

/-- A session whose block is closed has nothing left to do. -/
theorem Status.Fits.isOver {t : Ticket} {b : Block} {cancelled : Bool} {status : Status}
    (h : status.Fits t b cancelled) (hclosed : b.ending ≠ none) : status.isOver := by
  cases status with
  | ready => exact absurd h.1 hclosed
  | asleep => exact absurd h.1 hclosed
  | ended => rfl
  | crashed => rfl

/-- What a session may make of its block. -/
structure Block.Continues (b b' : Block) : Prop where
  id : b'.id = b.id
  callback : b'.callback = b.callback
  closed : b.ending ≠ none → b' = b

theorem Registry.Sound.of_surroundings {σ : Type} {w : Surroundings σ} {r r' : Registry}
    (h : r.Sound) (hw : ∀ r, w.registry r → r.Sound) (hr : r' = r ∨ w.registry r') : r'.Sound := by
  obtain rfl | hr := hr
  · exact h
  · exact hw _ hr

namespace Block.Continues
variable {b b' b'' : Block}

theorem refl (b : Block) : b.Continues b := ⟨rfl, rfl, fun _ => rfl⟩

theorem of_open (hopen : b.ending = none) (hid : b'.id = b.id)
    (hcallback : b'.callback = b.callback) :
    b.Continues b' := ⟨hid, hcallback, fun hclosed => absurd hopen hclosed⟩

theorem trans (h : b.Continues b') (h' : b'.Continues b'') : b.Continues b'' where
  id := h'.id.trans h.id
  callback := h'.callback.trans h.callback
  closed hclosed := by
    obtain rfl := h.closed hclosed
    exact h'.closed hclosed

end Block.Continues

namespace Stage
variable {σ : Type}

theorem ledger_foldl_perform (st : Stage σ) (effects : List Effect) :
    (effects.foldl perform st).ledger = effects.foldl Ledger.perform st.ledger := by
  induction effects generalizing st with
  | nil => rfl
  | cons e effects ih => rw [List.foldl_cons, ih, ledger_perform, List.foldl_cons]

/-- The last block is that of the session on the stage. -/
structure Plays (past : List Block) (b : Block) (t : Ticket) (j : Job) (st : Stage σ) : Prop where
  sound : st.registry.Sound
  records : Records (past ++ [b]) st.ledger
  started : st.started = past.length + 1
  jobs : st.jobs = [j]
  job : j.id = t.id
  id : t.id = b.id
  fits : j.status.Fits t b j.cancelled

/-- No session is on the stage. -/
structure Vacant (blocks : List Block) (st : Stage σ) : Prop where
  sound : st.registry.Sound
  records : Records blocks st.ledger
  started : st.started = blocks.length
  jobs : st.jobs = []
  active : st.player.active = none

/-- What a stage is like when no call is under way. -/
inductive Between (blocks : List Block) (st : Stage σ) : Prop
  | rests (h : Vacant blocks st) (hclosed : ∀ b ∈ blocks, b.ending.isSome)
  | plays {past : List Block} {b : Block} {j : Job} {t : Ticket} (hblocks : blocks = past ++ [b])
    (h : Plays past b t j st) (hactive : st.player.active = some t) (hfree : j.cancelled = false)

variable {st st' : Stage σ} {past blocks : List Block} {b : Block} {t : Ticket} {j : Job}

theorem Vacant.keeps (h : Vacant blocks st) (hkeeps : Keeps st st')
    (hrecords : Records blocks st'.ledger) : Vacant blocks st' where
  sound := by simpa only [hkeeps.registry] using h.sound
  records := hrecords
  started := hkeeps.started.trans h.started
  jobs := hkeeps.jobs.trans h.jobs
  active := hkeeps.active.trans h.active

theorem records_ending (h : Records (past ++ [b]) st.ledger) (hid : t.id = b.id)
    (hopen : b.ending = none) (e : Ending) :
    Records (past ++ [b.close e]) ((e.effects t.id).foldl perform st).ledger := by
  rw [ledger_foldl_perform, hid]
  exact h.close hopen e

theorem Vacant.close (h : Vacant (past ++ [b]) st) (hid : t.id = b.id) (hopen : b.ending = none)
    (e : Ending) : Vacant (past ++ [b.close e]) ((e.effects t.id).foldl perform st) where
  sound := by simpa only [(keeps_foldl_perform st _).registry] using h.sound
  records := records_ending h.records hid hopen e
  started := by simpa using (keeps_foldl_perform st _).started.trans h.started
  jobs := (keeps_foldl_perform st _).jobs.trans h.jobs
  active := (keeps_foldl_perform st _).active.trans h.active

theorem Vacant.frame (h : Vacant blocks st) (text : String) :
    Vacant blocks (st.perform (.frame text)) :=
  h.keeps (keeps_perform st _) (by rw [ledger_perform]; exact h.records)

theorem Vacant.setState (h : Vacant blocks st) (hclosed : ∀ b ∈ blocks, b.ending.isSome)
    {state : State} (hstate : state ≠ .typing) : Vacant blocks (st.perform (.setState state)) :=
  h.keeps (keeps_perform st _) (by rw [ledger_perform]; exact h.records.setState hclosed hstate)

/-- Rendering only signals. -/
theorem Vacant.render (h : Vacant blocks st) (source : String) (tags : List Tag)
    (speed : Number.Single) : Vacant blocks (st.render source tags speed).2 := by
  show Vacant blocks (List.foldl signal st _)
  generalize (renderInstant st.registry st.player.config.unknownTags source tags speed).signals =
    list
  induction list generalizing st with
  | nil => exact h
  | cons s list ih =>
    exact ih (h.keeps (keeps_signal st s) (by rw [ledger_signal]; exact h.records))

theorem Vacant.launch (h : Vacant blocks st) (hclosed : ∀ b ∈ blocks, b.ending.isSome)
    (text : String) (speed : Option Number.Single) (callback : Bool) :
    Between (blocks ++ [{ id := blocks.length + 1, callback }])
      (st.launch text speed callback).2 := by
  have hid : st.started + 1 = blocks.length + 1 := by rw [h.started]
  have hledger : (st.launch text speed callback).2.ledger =
      { st.ledger with
        events := st.ledger.events ++ [.started (st.started + 1)]
        state := .typing
        waiting :=
          if callback then st.ledger.waiting ++ [st.started + 1] else st.ledger.waiting } := by
    simp [Stage.launch, ledger, publish, perform, note, Stage.setState, Channel.send, Entry.ran?]
  have hjobs := jobs_launch st text speed callback
  rw [h.jobs, List.nil_append] at hjobs
  refine .plays rfl ⟨h.sound, ?_, hid, hjobs, rfl, hid, rfl, ?_, ?_⟩ rfl rfl
  · rw [hledger, hid]
    exact h.records.start hclosed callback
  · exact Session.orderly_start ..
  · exact Session.silent_start ..

theorem Plays.outcome? (h : Plays past b t j st) : st.outcome? t.id = j.status.outcome? := by
  have hjob : st.job? t.id = some j := by simp [job?, h.jobs, h.job]
  rw [Stage.outcome?, hjob]

/-- The session is gone once it has been waited for. -/
theorem Plays.vacate (h : Plays past b t j st) (hactive : st.player.active = none) :
    Vacant (past ++ [b]) (st.removeJob t.id) where
  sound := h.sound
  records := h.records
  started := h.started.trans (by simp)
  jobs := by simp [removeJob, h.jobs, h.job]
  active := hactive

/-- A session that is cancelled is no longer active. -/
theorem Plays.cancel (h : Plays past b t j st) (hfits : j.status.Fits t b true) :
    Plays past b t { j with cancelled := true }
      ({ st with player := { st.player with active := none } }.cancelJob t.id) :=
  ⟨h.sound, h.records, h.started, by simp [cancelJob, h.jobs, h.job], h.job, h.id, hfits⟩

theorem Plays.vacate_cancel (h : Plays past b t j st) :
    Vacant (past ++ [b])
      (({ st with player := { st.player with active := none } }.cancelJob t.id).removeJob
        t.id) where
  sound := h.sound
  records := h.records
  started := h.started.trans (by simp)
  jobs := by simp [removeJob, cancelJob, h.jobs, h.job]
  active := rfl

theorem Plays.isOver_cancel (h : Plays past b t j st) (hclosed : b.ending ≠ none) :
    ∀ x ∈ ({ st with player := { st.player with active := none } }.cancelJob t.id).jobs,
      x.status.isOver := by
  intro x hx
  obtain ⟨y, hy, rfl⟩ := List.mem_map.mp hx
  rw [show y = j by simpa [h.jobs] using hy]
  split <;> exact h.fits.isOver hclosed

theorem Between.records (h : Between blocks st) : Records blocks st.ledger := by
  cases h with
  | rests h => exact h.records
  | plays hblocks h => exact hblocks ▸ h.records

theorem ledger_of_new? {registry : Registry} {clock : σ} {config : Config} {hub : HubRef}
    (h : Stage.new? registry clock config hub = some st) : st.ledger = ⟨[], .idle, [], []⟩ := by
  obtain ⟨channel, hchannel, rfl⟩ := Option.map_eq_some_iff.mp h
  have hsent : channel.sent = #[] := by
    unfold Config.channel? Channel.ofCapacity? at hchannel
    split at hchannel <;> cases hchannel
    rfl
  simp [ledger, hsent]

theorem between_of_new? {registry : Registry} {clock : σ} {config : Config} {hub : HubRef}
    (hsound : registry.Sound) (h : Stage.new? registry clock config hub = some st) :
    Between [] st := by
  have hbegin : Records [] st.ledger := by
    rw [ledger_of_new? h]
    exact Records.begin (by decide)
  obtain ⟨channel, -, rfl⟩ := Option.map_eq_some_iff.mp h
  exact .rests ⟨hsound, hbegin, rfl, rfl, rfl⟩ (by simp)

variable [TimeBase σ] {w : Surroundings σ}

theorem drive_foldr_perform (pace : Pace) (effects : List Effect) (s : Session) (share : Nat)
    (st : Stage σ) : drive pace (effects.foldr .perform s) share st =
      drive pace s share (effects.foldl perform st) := by
  induction effects generalizing st with
  | nil => rfl
  | cons e effects ih => rw [List.foldr_cons, drive, ih, List.foldl_cons]

theorem drive_silent {s : Session} (h : s.Silent) (through : Bool) (share : Nat) (st : Stage σ) :
    drive ⟨true, through⟩ s share st = (.ended .cancelled, st) := by
  induction s generalizing share st with
  | ended outcome => rw [drive, h]
  | check next ih => exact ih true h share st
  | _ => cases h

/-- What a turn leaves: the block has gone on, and the session still fits it. -/
def Fitting (past : List Block) (t : Ticket) (b : Block) (cancelled : Bool)
    (after : Status × Stage σ) : Prop :=
  ∃ b', b.Continues b' ∧ Records (past ++ [b']) after.2.ledger ∧ after.1.Fits t b' cancelled

theorem fitting_complete (hrecords : Records (past ++ [b]) st.ledger) (hid : t.id = b.id)
    (hopen : b.ending = none) (pace : Pace) (share : Nat) (cancelled : Bool) :
    Fitting past t b cancelled (drive pace (.complete t.id) share st) :=
  ⟨b.close .completed, .of_open hopen rfl rfl, records_ending hrecords hid hopen .completed, rfl⟩

theorem fitting_drive {s : Session} (hs : s.Orderly t.id) (through : Bool) (share : Nat)
    (hsound : st.registry.Sound) (hrecords : Records (past ++ [b]) st.ledger) (hid : t.id = b.id)
    (hopen : b.ending = none) : Fitting past t b false (drive ⟨false, through⟩ s share st) := by
  -- The block stays open to the end of the session, but grows with what it reveals.
  induction hs generalizing share st b with
  | complete => exact fitting_complete hrecords hid hopen ..
  | report =>
    rw [drive_foldr_perform]
    exact ⟨b.close .cancelled, .of_open hopen rfl rfl,
      records_ending hrecords hid hopen .cancelled, rfl⟩
  | frame h ih =>
    rw [drive]
    exact ih share hsound (by rw [ledger_perform]; exact hrecords) hid hopen
  | @reveal text offset next h ih =>
    have hnow : Records (past ++ [b.reveal text offset])
        (st.perform (.publish (.revealed text offset))).ledger := by
      rw [ledger_perform]
      exact hrecords.reveal hopen text offset
    have hsame : (st.perform (.publish (.revealed text offset))).registry.Sound := hsound
    obtain ⟨b', hb', hfit⟩ := ih share hsame hnow hid hopen
    exact ⟨b', .of_open hopen hb'.id hb'.callback, hfit⟩
  | @signal s next h ih =>
    rw [drive]
    exact ih share (by rwa [(keeps_perform st (.signal s)).registry])
      (by rw [ledger_perform]; exact hrecords) hid hopen
  | @resolve name next h ih =>
    exact ih (st.registry.get? name) (fun found hfound => hsound name found hfound) share hsound
      hrecords hid hopen
  | check h ih => exact ih share hsound hrecords hid hopen
  | yield hs h ih =>
    rw [drive]
    split
    · exact ih _ hsound hrecords hid hopen
    · exact ⟨b, .refl b, hrecords, hopen, h, .inl hs⟩
  | breathe hs h ih =>
    rw [drive]
    split
    · exact ih _ hsound hrecords hid hopen
    · split
      · exact ih _ hsound hrecords hid hopen
      · exact ⟨b, .refl b, hrecords, hopen, h, .inl hs⟩
  | @sleep seconds next hs h ih =>
    simp only [drive]
    have hasked : Records (past ++ [b]) ({ st with
        clock := (TimeBase.request st.clock seconds).2 }.note (.asked seconds)).ledger := by
      rw [ledger_note _ rfl]
      exact hrecords
    split
    · exact ih .elapsed _ hsound hasked hid hopen
    · exact ih (.failed _) _ hsound hasked hid hopen
    · exact ⟨b, .refl b, hasked, hopen, hs, h⟩

theorem fitting_resume {cancelled : Bool} {status : Status} (hfits : status.Fits t b cancelled)
    (through : Bool) (hsound : st.registry.Sound) (hrecords : Records (past ++ [b]) st.ledger)
    (hid : t.id = b.id) : Fitting past t b cancelled (resume ⟨cancelled, through⟩ status st) := by
  cases status with
  | ended outcome => exact ⟨b, .refl b, hrecords, hfits⟩
  | crashed => exact ⟨b, .refl b, hrecords, hfits⟩
  | ready s =>
    obtain ⟨hopen, hs, hattends⟩ := hfits
    cases cancelled with
    | false => exact fitting_drive hs through _ hsound hrecords hid hopen
    -- Cancelled where it has stopped it says nothing more; only over an empty text it completes.
    | true =>
      rw [resume]
      obtain hsilent | ⟨-, rfl⟩ := hattends
      · rw [drive_silent hsilent]
        exact ⟨b, .refl b, hrecords, hopen⟩
      · exact fitting_complete hrecords hid hopen ..
  | asleep seconds next =>
    obtain ⟨hopen, hsilent, hnext⟩ := hfits
    simp only [resume]
    split
    · rename_i hcancelled
      obtain rfl : cancelled = true := hcancelled
      rw [drive_silent hsilent]
      exact ⟨b, .refl b, hrecords, hopen⟩
    · rename_i hfree
      obtain rfl : cancelled = false := by simpa using hfree
      split
      · exact fitting_drive (hnext .elapsed) through _ hsound hrecords hid hopen
      · exact fitting_drive (hnext (.failed _)) through _ hsound hrecords hid hopen
      · exact ⟨b, .refl b, hrecords, hopen, hsilent, hnext⟩

theorem Plays.turn (h : Plays past b t j st) (through : Bool) (index : Nat) :
    ∃ b' j', b.Continues b' ∧ Plays past b' t j' (st.turn through index) ∧
      j'.cancelled = j.cancelled := by
  cases index with
  | succ index =>
    rw [turn_lone_succ h.jobs]
    exact ⟨b, j, .refl b, h, rfl⟩
  | zero =>
    have hkeeps := keeps_resume ⟨j.cancelled, through⟩ j.status st
    obtain ⟨b', hb', hrecords, hfits⟩ := fitting_resume h.fits through h.sound h.records h.id
    rw [turn_lone h.jobs]
    refine ⟨b', _, hb', ⟨?_, hrecords, hkeeps.started.trans h.started, rfl, h.job,
      h.id.trans hb'.id.symm, hfits⟩, rfl⟩
    simpa only [hkeeps.registry] using h.sound

theorem Plays.moves (hw : ∀ r, w.registry r → r.Sound) (h : Plays past b t j st)
    (hm : st.Moves w st') :
    ∃ b' j', b.Continues b' ∧ Plays past b' t j' st' ∧ j'.cancelled = j.cancelled := by
  induction hm with
  | refl => exact ⟨b, j, .refl b, h, rfl⟩
  | tail _ hm ih =>
    obtain ⟨b', j', hb', h', hcancelled⟩ := ih
    cases hm with
    | turn through index =>
      obtain ⟨b'', j'', hb'', h'', hsame⟩ := h'.turn through index
      exact ⟨b'', j'', hb'.trans hb'', h'', hsame.trans hcancelled⟩
    | clock => exact ⟨b', j', hb', { h' with }, hcancelled⟩
    | registry hr => exact ⟨b', j', hb', { h' with sound := hw _ hr }, hcancelled⟩

theorem turn_of_over (h : ∀ j ∈ st.jobs, j.status.isOver) (through : Bool) (index : Nat) :
    st.turn through index = st := by
  cases hj : st.jobs[index]? with
  | none => simp [Stage.turn, hj]
  | some j =>
    obtain ⟨hlt, rfl⟩ := List.getElem?_eq_some_iff.mp hj
    have hresume : resume ⟨st.jobs[index].cancelled, through⟩ st.jobs[index].status st =
        (st.jobs[index].status, st) := by
      have hover := h _ (List.getElem_mem hlt)
      cases hs : st.jobs[index].status <;> rw [hs] at hover <;> first | rfl | cases hover
    rw [turn_eq hj, hresume]
    exact congrArg (fun jobs => { st with jobs }) (List.set_getElem_self hlt)

/-- Where all sessions are over, only the surroundings change. -/
theorem eq_of_moves_of_over (h : ∀ j ∈ st.jobs, j.status.isOver) (hm : st.Moves w st') :
    ∃ clock registry, st' = { st with clock, registry } ∧
      (registry = st.registry ∨ w.registry registry) := by
  induction hm with
  | refl => exact ⟨st.clock, st.registry, rfl, .inl rfl⟩
  | tail _ hm ih =>
    obtain ⟨clock, registry, heq, hr⟩ := ih
    cases hm with
    | turn through index =>
      rw [turn_of_over (by rw [heq]; exact h)]
      exact ⟨clock, registry, heq, hr⟩
    | clock => exact ⟨_, registry, by rw [heq], hr⟩
    | registry hr => exact ⟨clock, _, by rw [heq], .inr hr⟩

end Stage
end TextReveal
