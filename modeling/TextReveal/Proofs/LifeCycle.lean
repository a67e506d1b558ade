import TextReveal.Proofs.Staging
/-!
The life cycle of sessions: one block of events for each start, at most one ending in it, and a
callback that runs exactly with a completion.
-/
namespace TextReveal
open Ledger

/-- What becomes of blocks: those that are closed stay, and starts with or without callbacks add to
them. -/
structure Succeeds (blocks : List Block) (starts : List Bool) (blocks' : List Block) : Prop where
  callbacks : blocks'.map Block.callback = blocks.map Block.callback ++ starts
  kept : ∀ b ∈ blocks, b.ending.isSome → b ∈ blocks'

namespace Succeeds
variable {blocks blocks' blocks'' past : List Block} {starts starts' : List Bool} {b b' : Block}

theorem refl (blocks : List Block) : Succeeds blocks [] blocks :=
  ⟨(List.append_nil _).symm, fun _ hb _ => hb⟩

theorem trans (h : Succeeds blocks starts blocks') (h' : Succeeds blocks' starts' blocks'') :
    Succeeds blocks (starts ++ starts') blocks'' where
  callbacks := by rw [h'.callbacks, h.callbacks, List.append_assoc]
  kept b hb hclosed := h'.kept b (h.kept b hb hclosed) hclosed

theorem continues (h : b.Continues b') : Succeeds (past ++ [b]) [] (past ++ [b']) where
  callbacks := by simp [h.callback]
  kept x hx hclosed := by
    obtain hpast | rfl := by simpa using hx
    · exact List.mem_append_left _ hpast
    · rw [h.closed (Option.isSome_iff_ne_none.mp hclosed)]
      exact hx

theorem start (blocks : List Block) (id : Nat) (callback : Bool) :
    Succeeds blocks [callback] (blocks ++ [⟨id, callback, [], none⟩]) where
  callbacks := by simp
  kept _ hb _ := List.mem_append_left _ hb

end Succeeds

/-- The sessions that a call starts: whether each has a callback. -/
def Command.starts : Command → List Bool
  | start _ _ callback => [callback]
  | _ => []

theorem Stage.Vacant.afterwards {σ : Type} {blocks : List Block} {st : Stage σ} {c : Command}
    (h : Vacant blocks st) (hclosed : ∀ b ∈ blocks, b.ending.isSome) (hc : c.cancels) :
    ∃ blocks', Succeeds blocks c.starts blocks' ∧ Between blocks' (c.afterwards st) := by
  cases c with
  | start text speed callback =>
    exact ⟨_, .start blocks _ callback, h.launch hclosed text speed callback⟩
  | stop => exact ⟨blocks, .refl blocks, .rests h hclosed⟩
  | setInstant text =>
    have hshown := (h.render text (Tag.lex text) st.player.config.defaultSpeed).frame
      (st.render text (Tag.lex text) st.player.config.defaultSpeed).1
    exact ⟨blocks, .refl blocks, .rests (hshown.setState hclosed (by decide)) hclosed⟩
  | skip => cases hc
  | join => cases hc

namespace Request
variable {α σ : Type} [TimeBase σ] {w : Surroundings σ} {waiting : Ticket → Stage σ → Prop}
  {post : α → Stage σ → Prop} {st : Stage σ} {blocks past : List Block} {b : Block} {j : Job}
  {t : Ticket}
open Stage

theorem ensures_await {next : Outcome → Request α} (hw : ∀ r, w.registry r → r.Sound)
    (h : Plays past b t j st) (hactive : st.player.active = none)
    (hwaiting : ∀ b' st', b.Continues b' → Records (past ++ [b']) st'.ledger → waiting t st')
    (hnext : ∀ b' outcome st', b.Continues b' → Vacant (past ++ [b']) st' →
      (Status.ended outcome).Fits t b' j.cancelled → (next outcome).Ensures w waiting post st') :
    (await t next).Ensures w waiting post st := by
  intro st' hm
  obtain ⟨b', j', hb', h', hcancelled⟩ := h.moves hw hm
  refine ⟨hwaiting b' st' hb' h'.records, fun outcome houtcome => ?_⟩
  refine hnext b' outcome _ hb' (h'.vacate ((active_moves hm).trans hactive)) ?_
  rw [h'.outcome?] at houtcome
  rw [← hcancelled]
  exact h'.fits.ended houtcome

/-- Waiting for a session that is over. -/
theorem ensures_await_over {next : Outcome → Request α} (hw : ∀ r, w.registry r → r.Sound)
    (hover : ∀ j ∈ st.jobs, j.status.isOver) (h : Vacant blocks (st.removeJob t.id))
    (hwaiting : ∀ st', Records blocks st'.ledger → waiting t st')
    (hnext : ∀ outcome st', Vacant blocks st' → (next outcome).Ensures w waiting post st') :
    (await t next).Ensures w waiting post st := by
  intro st' hm
  obtain ⟨clock, registry, rfl, hregistry⟩ := eq_of_moves_of_over hover hm
  exact ⟨hwaiting _ h.records, fun outcome _ =>
    hnext outcome _ { h with sound := h.sound.of_surroundings hw hregistry }⟩

/-- What others see while a call waits. -/
def Holds {σ : Type} (blocks : List Block) (_ : Ticket) (st : Stage σ) : Prop :=
  ∃ blocks', Succeeds blocks [] blocks' ∧ Records blocks' st.ledger

/-- What a call comes to. -/
def Leads {α σ : Type} (blocks : List Block) (starts : List Bool) (_ : α) (st : Stage σ) : Prop :=
  ∃ blocks', Succeeds blocks starts blocks' ∧ Between blocks' st

/-- Whatever is on the stage, a halt leaves it vacant and all blocks closed. -/
theorem ensures_halt {next : Bool → Request α} (hw : ∀ r, w.registry r → r.Sound)
    (h : Between blocks st)
    (hwaiting : ∀ t blocks' st', Succeeds blocks [] blocks' → Records blocks' st'.ledger →
      waiting t st')
    (hnext : ∀ stopped blocks' st', Succeeds blocks [] blocks' → Vacant blocks' st' →
      (∀ b ∈ blocks', b.ending.isSome) → (next stopped).Ensures w waiting post st') :
    (halt next).Ensures w waiting post st := by
  cases h with
  | rests h hclosed =>
    simp only [halt, Ensures, h.active]
    exact hnext false blocks st (.refl blocks) h hclosed
  | @plays past b j t hblocks h hactive hfree =>
    subst hblocks
    simp only [halt, Ensures, hactive]
    by_cases hopen : b.ending = none
    -- The session may still complete: it looks whether it is cancelled only now and then.
    · have hfits : j.status.Fits t b true := (hfree ▸ h.fits).cancel hopen
      refine ensures_await hw (h.cancel hfits) rfl ?_ ?_
      · intro b' st' hb' hrecords
        exact hwaiting t _ st' (.continues hb') hrecords
      · intro b' outcome st' hb' hvacant hended
        cases outcome with
        | completed =>
          rw [if_neg (by simp)]
          exact hnext false _ st' (.continues hb') hvacant
            (hvacant.records.forall_closed (hended.closed (.inl rfl)))
        | cancelled =>
          have htyping : st.player.state = .typing := h.records.typing_iff.mpr hopen
          have hb'' : b.Continues (b'.close .cancelled) := .of_open hopen hb'.id hb'.callback
          have hvacant' := hvacant.close (h.id.trans hb'.id.symm) hended .cancelled
          rw [if_pos ⟨rfl, htyping⟩]
          exact ensures_performAll _ (hnext true _ _ (.continues hb'') hvacant'
            (hvacant'.records.forall_closed (b'.ending_close .cancelled)))
    -- The session has told its end itself, and is waited for in vain.
    · have hstill : st.player.state ≠ .typing := mt h.records.typing_iff.mp hopen
      refine ensures_await_over hw (h.isOver_cancel hopen) h.vacate_cancel ?_ ?_
      · intro st' hrecords
        exact hwaiting t _ st' (.refl _) hrecords
      · intro outcome st' hvacant
        rw [if_neg (fun hboth => hstill hboth.2)]
        exact hnext false _ st' (.refl _) hvacant (hvacant.records.forall_closed hopen)

theorem ensures_cancels {c : Command} (hc : c.cancels) (hw : ∀ r, w.registry r → r.Sound)
    (h : Between blocks st) :
    c.request.Ensures w (Holds blocks) (Leads blocks c.starts) st := by
  refine Command.ensures_of_cancels hc fun next hnext => ?_
  refine ensures_halt hw h (fun _ blocks' st' hs hr => ⟨blocks', hs, hr⟩) ?_
  intro stopped blocks' st' hs hvacant hclosed
  refine hnext stopped st' fun _ => ?_
  obtain ⟨blocks'', hs', hb⟩ := hvacant.afterwards hclosed hc
  exact ⟨blocks'', by simpa using hs.trans hs', hb⟩

theorem ensures_skip (hw : ∀ r, w.registry r → r.Sound) (h : Between blocks st) :
    Request.skip.Ensures w (Holds blocks) (Leads blocks []) st := by
  by_cases htyping : st.player.state = .typing
  · cases h with
    | rests h hclosed => exact absurd htyping (h.records.not_typing hclosed)
    | @plays past b j t hblocks h hactive hfree =>
      subst hblocks
      have hopen := h.records.typing_iff.mp htyping
      have hfits : j.status.Fits t b true := (hfree ▸ h.fits).cancel hopen
      rw [Request.skip, Ensures, if_neg (fun hstill => hstill htyping)]
      simp only [Ensures, hactive]
      refine ensures_await hw (h.cancel hfits) rfl ?_ ?_
      · intro b' st' hb' hrecords
        exact ⟨_, .continues hb', hrecords⟩
      · intro b' outcome st' hb' hvacant hended
        cases outcome with
        | completed =>
          exact ⟨_, .continues hb',
            .rests hvacant (hvacant.records.forall_closed (hended.closed (.inl rfl)))⟩
        -- Only then is the final text shown, and `skipped` closes the block in its place.
        | cancelled =>
          have hb'' : b.Continues (b'.close .skipped) := .of_open hopen hb'.id hb'.callback
          have hrendered := hvacant.render t.source t.tags t.speed
          simp only [Ensures, Option.getD_some]
          generalize st'.render t.source t.tags t.speed = r at hrendered ⊢
          have hdone := (hrendered.frame r.1).close (h.id.trans hb'.id.symm) hended .skipped
          exact ensures_performAll (.frame r.1 :: Ending.skipped.effects t.id)
            ⟨_, .continues hb'',
              .rests hdone (hdone.records.forall_closed (b'.ending_close .skipped))⟩
  · rw [Request.skip, Ensures, if_pos htyping]
    exact ⟨blocks, .refl blocks, h⟩

theorem ensures_join (hw : ∀ r, w.registry r → r.Sound) (h : Between blocks st) :
    Request.join.Ensures w (Holds blocks) (Leads blocks []) st := by
  cases h with
  | rests h hclosed =>
    simp only [Request.join, Ensures, h.active]
    exact ⟨blocks, .refl blocks, .rests ⟨h.sound, h.records, h.started, h.jobs, rfl⟩ hclosed⟩
  | @plays past b j t hblocks h hactive hfree =>
    subst hblocks
    rw [Request.join, Ensures, hactive]
    have htaken : Plays past b t j { st with player := { st.player with active := none } } :=
      { h with }
    refine ensures_await hw htaken rfl ?_ ?_
    · intro b' st' hb' hrecords
      exact ⟨_, .continues hb', hrecords⟩
    · intro b' outcome st' hb' hvacant hended
      exact ⟨_, .continues hb',
        .rests hvacant (hvacant.records.forall_closed (hended.closed (.inr hfree)))⟩

end Request

namespace Stage
variable {σ : Type} [TimeBase σ] {w : Surroundings σ} {start st st' : Stage σ} {blocks : List Block}
  {calls : List Command}
open Request

theorem Between.ensures (hw : ∀ r, w.registry r → r.Sound) (h : Between blocks st) (c : Command) :
    c.request.Ensures w (Holds blocks) (Leads blocks c.starts) st := by
  cases c with
  | skip => exact ensures_skip hw h
  | join => exact ensures_join hw h
  | _ => exact ensures_cancels rfl hw h

theorem Between.move (hw : ∀ r, w.registry r → r.Sound) (h : Between blocks st)
    (hm : st.Move w st') : ∃ blocks', Succeeds blocks [] blocks' ∧ Between blocks' st' := by
  cases h with
  | rests h hclosed =>
    have hover : ∀ j ∈ st.jobs, j.status.isOver := by simp [h.jobs]
    obtain ⟨clock, registry, rfl, hregistry⟩ := eq_of_moves_of_over hover (.single hm)
    exact ⟨blocks, .refl blocks,
      .rests { h with sound := h.sound.of_surroundings hw hregistry } hclosed⟩
  | plays hblocks h hactive hfree =>
    subst hblocks
    obtain ⟨b', j', hb', h', hcancelled⟩ := h.moves hw (.single hm)
    exact ⟨_, .continues hb', .plays rfl h' ((active_moves (.single hm)).trans hactive)
      (hcancelled.trans hfree)⟩

theorem History.between (hw : ∀ r, w.registry r → r.Sound) (hstart : Between blocks start)
    (h : History w start calls st) :
    ∃ blocks', Succeeds blocks (calls.flatMap Command.starts) blocks' ∧ Between blocks' st := by
  induction h with
  | begin => exact ⟨blocks, .refl blocks, hstart⟩
  | move _ hm ih =>
    obtain ⟨blocks', hs, hb⟩ := ih
    obtain ⟨blocks'', hs', hb'⟩ := hb.move hw hm
    exact ⟨blocks'', by simpa using hs.trans hs', hb'⟩
  | call _ c hsteps ih =>
    obtain ⟨blocks', hs, hb⟩ := ih
    obtain ⟨blocks'', hs', hb'⟩ := (hb.ensures hw c).steps hsteps
    exact ⟨blocks'', by simpa using hs.trans hs', hb'⟩

theorem Seen.records (hw : ∀ r, w.registry r → r.Sound) (hstart : Between blocks start)
    (h : Seen w start calls st) :
    ∃ blocks', Succeeds blocks (calls.flatMap Command.starts) blocks' ∧
      Records blocks' st.ledger := by
  obtain h | ⟨before, c, session, next, h, hsteps⟩ := h
  · obtain ⟨blocks', hs, hb⟩ := h.between hw hstart
    exact ⟨blocks', hs, hb.records⟩
  · obtain ⟨blocks', hs, hb⟩ := h.between hw hstart
    have hwaits := (hb.ensures hw c).steps hsteps
    obtain ⟨blocks'', hs', hr⟩ := (hwaits st .refl).1
    exact ⟨blocks'', by simpa using hs.trans hs', hr⟩

end Stage

/-- The sessions of a player, as its listeners know them. -/
structure LifeCycle {σ : Type} (starts : List Bool) (blocks : List Block) (st : Stage σ) :
    Prop where
  /-- One block for each start, with its callback. -/
  callbacks : blocks.map Block.callback = starts
  ids : blocks.map Block.id = List.range' 1 starts.length
  events : st.channel.sent.toList = blocks.flatMap Block.events
  /-- No session starts before the one before it has ended. -/
  closed : ∀ b ∈ blocks.dropLast, b.ending.isSome
  typing : st.player.state = .typing ↔ ∃ b ∈ blocks.getLast?, b.ending = none
  ran : ∀ b ∈ blocks, st.journal.toList.count (.completed b.id) =
    if b.callback ∧ b.isCompleted then 1 else 0
  known : ∀ id, .completed id ∈ st.journal.toList → id ∈ blocks.map Block.id

theorem Ledger.Records.lifeCycle_of_succeeds {σ : Type} {blocks : List Block} {starts : List Bool}
    {st : Stage σ} (h : Records blocks st.ledger) (hstarts : Succeeds [] starts blocks) :
    LifeCycle starts blocks st := by
  have hcallbacks : blocks.map Block.callback = starts := hstarts.callbacks
  have hlength : blocks.length = starts.length := by rw [← hcallbacks, List.length_map]
  refine ⟨hcallbacks, hlength ▸ h.ids, h.events, h.closed, h.typing, ?_, ?_⟩
  · intro b hb
    rw [count_completed]
    exact h.count_ran hb
  · intro id hid
    have hran : id ∈ st.ledger.ran := List.mem_filterMap.mpr ⟨_, hid, rfl⟩
    rw [h.ran] at hran
    obtain ⟨b, hb, hmem⟩ := List.mem_flatMap.mp hran
    exact List.mem_map.mpr ⟨b, hb, (Block.eq_of_mem_ran hmem).symm⟩

/-- Whatever the owner calls, however its sessions are interleaved with that and whatever the clock
answers, each start makes one block of events. -/
theorem Stage.Seen.lifeCycle {σ : Type} [TimeBase σ] {w : Surroundings σ} {registry : Registry}
    {clock : σ} {config : Config} {hub : HubRef} {start st : Stage σ} {calls : List Command}
    (hregistry : registry.Sound) (hw : ∀ r, w.registry r → r.Sound)
    (hstart : Stage.new? registry clock config hub = some start) (h : Seen w start calls st) :
    ∃ blocks, LifeCycle (calls.flatMap Command.starts) blocks st := by
  obtain ⟨blocks, hs, hrecords⟩ := h.records hw (between_of_new? hregistry hstart)
  exact ⟨blocks, hrecords.lifeCycle_of_succeeds hs⟩

/-- A text that is skipped behind its first character: the clock is a gate without permits. -/
theorem Stage.Seen.lifeCycle_of_skip :
    ∃ (start st : Stage Clock) (blocks : List Block),
      Registry.Sound (.withBuiltins .own) ∧
      Stage.new? (.withBuiltins .own) {} {} .own = some start ∧
      start.Seen ⟨fun _ => True, Registry.Sound⟩ [.start "ab" none true, .skip] st ∧
      st.channel.sent.toList =
        [.started 1, .revealed "a" 0, .skipped 1, .completed 1] ∧
      LifeCycle [true] blocks st := by
  have hrun : ((Stage.new? (.withBuiltins .own) ({} : Clock) {} .own).bind fun start =>
      ((Request.start "ab" none true).run? start).bind fun begun =>
        (Request.skip.run? (begun.2.turn false 0)).map fun skipped =>
          skipped.2.channel.sent.toList) =
      some [.started 1, .revealed "a" 0, .skipped 1, .completed 1] := by
    decide +kernel
  simp only [Option.bind_eq_some_iff, Option.map_eq_some_iff] at hrun
  obtain ⟨start, hstart, ⟨id, begun⟩, hbegun, ⟨skipped, st⟩, hskip, hsent⟩ := hrun
  have hseen : start.Seen ⟨fun _ => True, Registry.Sound⟩ [.start "ab" none true, .skip] st :=
    .inl (((History.begin.call (.start "ab" none true) (Request.steps_of_run? _ hbegun)).move
      (.turn false 0 begun)).call .skip (Request.steps_of_run? _ hskip))
  have hsound := Registry.sound_withBuiltins .own
  obtain ⟨blocks, hblocks⟩ := Seen.lifeCycle hsound (fun _ hr => hr) hstart hseen
  exact ⟨start, st, blocks, hsound, hstart, hseen, hsent, hblocks⟩

end TextReveal
