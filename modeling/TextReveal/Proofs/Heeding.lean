import TextReveal.Proofs.Curtailing
import TextReveal.Proofs.Typing
/-!
Sessions heed a cancellation, whatever their handlers do: wherever one has stopped, it leaves in
silence if it is cancelled there. One that has broken down stays where it is, and one over the empty
text looks for nobody.
-/
namespace TextReveal

namespace Session

/-- What leaves in silence wherever it stops, if it is cancelled there. -/
def Heeds : Session → Prop
  | .ended _ | .crashed => True
  | .perform _ next => next.Heeds
  | .resolve _ next => ∀ found, (next found).Heeds
  | .check next => (next false).Heeds
  | .yield next | .breathe next => next.Silent ∧ next.Heeds
  | .sleep _ next => (next .cancelled).Silent ∧ ∀ wake, (next wake).Heeds

theorem Composed.heeds {id : Nat} {asks : String → Prop} {woken : Bool} {s : Session}
    (h : Composed id (fun _ => True) asks woken s) : s.Heeds := by
  induction h with
  | complete => trivial
  | abandon => trivial
  | crashed => trivial
  | frame _ ih => exact ih
  | reveal _ ih => exact ih
  | signal _ ih => exact ih
  | resolve _ _ ih => exact fun found => ih found fun _ _ => trivial
  | guarded _ ih => exact ih
  | yield _ ih => exact ⟨silent_guarded id _, ih⟩
  | poised _ ih => exact ⟨silent_guarded id _, ih⟩
  | sleep hcancelled _ ih => exact ⟨hcancelled ▸ silent_abandon id, ih⟩

theorem heeds_start (id : Nat) (policy : UnknownTags) (source : String) (tags : List Tag)
    (speed : Number.Single) : (start id policy source tags speed).Heeds :=
  (composed_start id _ policy source tags speed false).heeds

end Session

/-- The same of a session that has stopped. -/
def Status.Heeds : Status → Prop
  | .ready s => s.Silent ∧ s.Heeds
  | .asleep _ next => (next .cancelled).Silent ∧ ∀ wake, (next wake).Heeds
  | .ended _ | .crashed => True

/-- What only leaves in silence, if it is cancelled, or has broken down. -/
def Status.Lapses (status : Status) : Prop := status.Leaves ∨ status = .crashed

theorem Status.Heeds.lapses {status : Status} (h : status.Heeds)
    (htells : status.Tells false .typing) : status.Lapses := by
  cases status with
  | ready => exact .inl h.1
  | asleep => exact .inl h.1
  | ended outcome => cases outcome <;> cases htells
  | crashed => exact .inr rfl

theorem Status.Lapses.outcome {status : Status} {outcome : Outcome} (h : status.Lapses)
    (ho : status.outcome? = some outcome) : outcome = .cancelled := by
  obtain hleaves | rfl := h
  · exact hleaves.outcome ho
  · cases ho
    rfl

namespace Stage
variable {σ : Type} [TimeBase σ]

theorem Drives.heeds {through fails : Bool} {s : Session} {st : Stage σ}
    {after : Status × Stage σ} (h : Drives ⟨false, through⟩ s st fails after) (hs : s.Heeds) :
    after.1.Heeds := by
  induction h with
  | ended => trivial
  | crashed => trivial
  | perform _ ih => exact ih hs
  | resolve _ ih => exact ih (hs _)
  | check _ ih => exact ih hs
  | yield _ ih => exact ih hs.2
  | yields => exact hs
  | breathe _ ih => exact ih hs.2
  | breathes => exact hs
  | elapsed _ _ ih => exact ih (hs.2 _)
  | failed _ _ ih => exact ih (hs.2 _)
  | cancelled _ hcancelled => cases hcancelled
  | asleep => exact hs

theorem Resumes.heeds {through fails : Bool} {status : Status} {st : Stage σ}
    {after : Status × Stage σ} (h : Resumes ⟨false, through⟩ status st fails after)
    (hstatus : status.Heeds) : after.1.Heeds := by
  cases h with
  | ended => trivial
  | crashed => trivial
  | ready h => exact h.heeds hstatus.2
  | cancelled hcancelled => cases hcancelled
  | elapsed _ _ h => exact h.heeds (hstatus.2 _)
  | failed _ _ h => exact h.heeds (hstatus.2 _)
  | asleep => exact hstatus

end Stage

namespace Request
variable {α σ : Type} [TimeBase σ] {w : Surroundings σ} {post : α → Stage σ → Prop} {st : Stage σ}
open Stage

/-- Behind a halt the owner holds no session. -/
theorem ensures_halt_free {next : Bool → Request α}
    (hnext : ∀ stopped st', st'.player.active = none →
      (next stopped).Ensures w (fun _ _ => True) post st') :
    (halt next).Ensures w (fun _ _ => True) post st := by
  simp only [halt, Ensures]
  split
  · rename_i hactive
    exact hnext false st hactive
  · rename_i t _
    intro mid hm
    have hfree : (mid.removeJob t.id).player.active = none := active_moves hm
    refine ⟨trivial, fun outcome _ => ?_⟩
    split
    · exact ensures_performAll _ (hnext true _ ((keeps_foldl_perform _ _).active.trans hfree))
    · exact hnext false _ hfree

theorem ensures_skip_free : Request.skip.Ensures w (fun _ _ => True)
    (fun _ st' => st'.player.active = none ∨ st' = st ∧ st.player.state ≠ .typing) st := by
  rw [Request.skip, Ensures]
  split
  · exact .inr ⟨rfl, ‹_›⟩
  · simp only [Ensures]
    split
    · exact .inl ‹_›
    · rename_i t _
      intro mid hm
      have hfree : (mid.removeJob t.id).player.active = none := active_moves hm
      refine ⟨trivial, fun outcome _ => ?_⟩
      cases outcome with
      | completed => exact .inl hfree
      | cancelled =>
        have hkeeps := keeps_skipTo (mid.removeJob t.id) t
        simp only [Ensures, Option.getD_some]
        exact ensures_performAll (.frame _ :: Ending.skipped.effects t.id)
          (.inl (hkeeps.active.trans hfree))

theorem ensures_join_free : Request.join.Ensures w (fun _ _ => True)
    (fun _ st' => st'.player.active = none) st := by
  rw [Request.join, Ensures]
  cases st.player.active with
  | none => rfl
  | some t =>
    intro mid hm
    exact ⟨trivial, fun _ _ => active_moves hm⟩

/-- Behind a start the owner holds the session that it has begun. -/
theorem ensures_start_held {text : String} {speed : Option Number.Single} {callback : Bool} :
    (Request.start text speed callback).Ensures w (fun _ _ => True)
      (fun id begun => ∀ t, begun.player.active = some t → t.id = id ∧ t.source = text) st := by
  refine ensures_halt_free fun _ before _ t hactive => ?_
  obtain rfl := Option.some.inj hactive
  exact ⟨rfl, rfl⟩

/-- A call that starts no session leaves its owner without one, or has found nothing to skip. -/
theorem ensures_drops {c : Command}
    (hc : ∀ text speed callback, c ≠ .start text speed callback) :
    c.request.Ensures w (fun _ _ => True)
      (fun _ st' => st'.player.active = none ∨ st' = st ∧ st.player.state ≠ .typing) st := by
  cases c with
  | start text speed callback => exact absurd rfl (hc text speed callback)
  | skip => exact ensures_skip_free
  | join => exact ensures_join_free.mono fun _ _ hfree => .inl hfree
  | stop => exact ensures_halt_free fun _ _ hfree => .inl hfree
  | setInstant text =>
    refine Command.ensures_of_cancels rfl fun next hnext => ensures_halt_free ?_
    intro stopped st' hfree
    refine hnext stopped st' fun _ => .inl ?_
    exact (Command.keeps_setInstant st' text).active.trans hfree

end Request

namespace Stage
variable {σ : Type} [TimeBase σ] {w : Surroundings σ} {start st st' : Stage σ}
  {calls : List Command} {t : Ticket}

/-- No session makes its player type again. -/
theorem Told.typing_of_move (h : Told st) (hactive : st.player.active = some t)
    (hm : st.Move w st') (htyping : st'.player.state = .typing) : st.player.state = .typing := by
  by_contra hstate
  cases h with
  | rests _ hnone => rw [hnone] at hactive; cases hactive
  | @plays t status h _ =>
    have hover : ∀ j ∈ st.jobs, j.status.isOver := by simp [h.jobs, h.tells.isOver hstate]
    obtain ⟨clock, registry, rfl, -⟩ := eq_of_moves_of_over hover (.single hm)
    exact hstate htyping

/-- What the last call has begun, where a player types and its owner holds a session. -/
theorem History.begun_of_typing (hstart : Told start) (hfree : start.player.active = none)
    (h : History w start calls st) (hactive : st.player.active = some t)
    (htyping : st.player.state = .typing) :
    ∃ earlier speed callback before begun, calls = earlier ++ [.start t.source speed callback] ∧
      History w start earlier before ∧
      Request.Steps w (.start t.source speed callback, before) (.done t.id, begun) ∧
      begun.player.active = some t ∧ begun.Moves w st := by
  -- Back through moves to the call that has begun the session; no other call leaves one typing.
  induction h with
  | begin => rw [hfree] at hactive; cases hactive
  | @move calls st st' h hm ih =>
    have hheld : st.player.active = some t := (active_moves (.single hm)).symm.trans hactive
    obtain ⟨earlier, speed, callback, before, begun, hcalls, hearlier, hs, hbegun, hmoves⟩ :=
      ih hheld ((h.told hstart).typing_of_move hheld hm htyping)
    exact ⟨earlier, speed, callback, before, begun, hcalls, hearlier, hs, hbegun, hmoves.tail hm⟩
  | @call calls st st' h c answer hs ih =>
    by_cases hc : ∃ text speed callback, c = .start text speed callback
    · obtain ⟨text, speed, callback, rfl⟩ := hc
      have hheld := Request.ensures_start_held.steps hs
      obtain ⟨rfl, rfl⟩ := hheld t hactive
      exact ⟨calls, speed, callback, st, st', rfl, h, hs, hactive, .refl⟩
    · have hdrops := (Request.ensures_drops (c := c) fun text speed callback heq =>
        hc ⟨text, speed, callback, heq⟩).steps hs
      obtain hnone | ⟨rfl, hstate⟩ := hdrops
      · rw [hnone] at hactive
        cases hactive
      · exact absurd htyping hstate

/-- A session that its owner holds and leaves alone. It heeds a cancellation, or is one over the
empty text that has not had a turn. -/
def Held (t : Ticket) (st : Stage σ) : Prop :=
  ∃ status, st.jobs = [⟨t.id, status, false⟩] ∧
    (status.Heeds ∨ t.source = "" ∧ status = .ready (.complete t.id) ∧ st.display = "")

theorem Held.move (h : Held t st) (hm : st.Move w st') : Held t st' := by
  obtain ⟨status, hjobs, hstatus⟩ := h
  cases hm with
  | clock => exact ⟨status, hjobs, hstatus⟩
  | registry => exact ⟨status, hjobs, hstatus⟩
  | turn through index =>
    cases index with
    | succ index =>
      rw [turn_lone_succ hjobs]
      exact ⟨status, hjobs, hstatus⟩
    | zero =>
      rw [turn_lone hjobs]
      -- A session over the empty text is over with its first turn, and heeds from then on.
      refine ⟨_, rfl, .inl ?_⟩
      obtain hheeds | ⟨-, rfl, -⟩ := hstatus
      · exact (resumes_free through _ st).heeds hheeds
      · exact trivial

theorem Held.moves (h : Held t st) (hm : st.Moves w st') : Held t st' := by
  induction hm with
  | refl => exact h
  | tail _ hm ih => exact ih.move hm

theorem held_launch {σ : Type} {st : Stage σ} (hjobs : st.jobs = []) (text : String)
    (speed : Option Number.Single) (callback : Bool) :
    Held ⟨st.started + 1, text, Tag.lex text, speed.getD st.player.config.defaultSpeed⟩
      (st.launch text speed callback).2 := by
  refine ⟨st.opening text speed, by rw [jobs_launch, hjobs, List.nil_append], ?_⟩
  obtain hsilent | ⟨hempty, hcomplete⟩ := Session.silent_start (st.started + 1)
    st.player.config.unknownTags text (Tag.lex text) (speed.getD st.player.config.defaultSpeed)
  · exact .inl ⟨hsilent, Session.heeds_start ..⟩
  · exact .inr ⟨hempty, congrArg Status.ready hcomplete,
      congrArg View.shown (view_launch st text speed callback)⟩

/-- While its player types, a session that is held lapses if it is cancelled, or else has shown the
empty text already. -/
theorem Held.lapses {σ : Type} {st : Stage σ} {status : Status} (h : Held t st)
    (htells : Attends t status false st) (htyping : st.player.state = .typing) :
    status.Lapses ∨ t.source = "" ∧ status = .ready (.complete t.id) ∧ st.display = "" := by
  obtain ⟨status', hjobs, hstatus⟩ := h
  obtain rfl : status' = status := by simpa [hjobs] using htells.jobs
  obtain hheeds | hblank := hstatus
  · have htold := htells.tells
    rw [htyping] at htold
    exact .inl (hheeds.lapses htold)
  · exact .inr hblank

end Stage
end TextReveal
