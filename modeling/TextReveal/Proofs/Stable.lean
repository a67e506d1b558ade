import TextReveal.Proofs.Interleaving
/-!
What nothing that happens on a stage undoes, neither its sessions nor its owner.
-/
namespace TextReveal
namespace Stage
variable {σ : Type} [TimeBase σ]

/-- What each single change of a stage preserves. -/
structure Stable (I : Stage σ → Prop) : Prop where
  turn {st : Stage σ} (h : I st) (through : Bool) (index : Nat) : I (st.turn through index)
  clock {st : Stage σ} (h : I st) (clock : σ) : I { st with clock }
  registry {st : Stage σ} (h : I st) (registry : Registry) : I { st with registry }
  letGo {st : Stage σ} (h : I st) : I { st with player := { st.player with active := none } }
  cancelJob {st : Stage σ} (h : I st) (id : Nat) : I (st.cancelJob id)
  removeJob {st : Stage σ} (h : I st) (id : Nat) : I (st.removeJob id)
  perform {st : Stage σ} (h : I st) (e : Effect) : I (st.perform e)
  launch {st : Stage σ} (h : I st) (text : String) (speed : Option Number.Single)
    (callback : Bool) : I (st.launch text speed callback).2

namespace Stable
variable {I : Stage σ → Prop} {w : Surroundings σ} {start st st' : Stage σ} {calls : List Command}

theorem render (hI : Stable I) (h : I st) (source : String) (tags : List Tag)
    (speed : Number.Single) : I (st.render source tags speed).2 := by
  show I (List.foldl signal st _)
  generalize (renderInstant st.registry st.player.config.unknownTags source tags speed).signals =
    list
  induction list generalizing st with
  | nil => exact h
  | cons s list ih => exact ih (hI.perform h (.signal s))

theorem move (hI : Stable I) (h : I st) (hm : st.Move w st') : I st' := by
  cases hm with
  | turn through index => exact hI.turn h through index
  | clock => exact hI.clock h _
  | registry => exact hI.registry h _

theorem moves (hI : Stable I) (h : I st) (hm : st.Moves w st') : I st' := by
  induction hm with
  | refl => exact h
  | tail _ hm ih => exact hI.move ih hm

theorem step {α : Type} {before after : Request α × Stage σ} (hI : Stable I) (h : I before.2)
    (hs : Request.Step w before after) : I after.2 := by
  cases hs with
  | move hm => exact hI.move h hm
  | @own request st _ hs =>
    cases request with
    | done => cases hs
    | readState next => cases hs; exact h
    | take next => cases hs; exact hI.letGo h
    | cancel next =>
      simp only [Request.step?] at hs
      cases ha : st.player.active with
      | none =>
        rw [ha] at hs
        cases hs
        exact h
      | some session =>
        rw [ha] at hs
        cases hs
        exact hI.cancelJob (hI.letGo h) session.id
    | await session next =>
      obtain ⟨outcome, -, rfl⟩ := Option.map_eq_some_iff.mp hs
      exact hI.removeJob h session.id
    | render source tags speed next => cases hs; exact hI.render h source tags _
    | launch text speed callback next => cases hs; exact hI.launch h text speed callback
    | perform effect next => cases hs; exact hI.perform h effect

theorem steps {α : Type} {before after : Request α × Stage σ} (hI : Stable I) (h : I before.2)
    (hs : Request.Steps w before after) : I after.2 := by
  induction hs with
  | refl => exact h
  | tail _ hstep ih => exact hI.step ih hstep

theorem history (hI : Stable I) (hstart : I start) (h : History w start calls st) : I st := by
  induction h with
  | begin => exact hstart
  | move _ hm ih => exact hI.move ih hm
  | call _ c hsteps ih => exact hI.steps ih hsteps

theorem seen (hI : Stable I) (hstart : I start) (h : Seen w start calls st) : I st := by
  obtain h | ⟨before, c, session, next, h, hsteps⟩ := h
  · exact hI.history hstart h
  · exact hI.steps (hI.history hstart h) hsteps

/-- What holds of a stage before a session is started holds when it is launched. -/
theorem launched {text : String} {speed : Option Number.Single} {callback : Bool} {id : Nat}
    (hI : Stable I) (h : I st)
    (hs : Request.Steps w (.start text speed callback, st) (.done id, st')) :
    ∃ before, I before ∧ id = before.started + 1 ∧
      st' = (before.launch text speed callback).2 := by
  have hensures : (Request.start text speed callback).Ensures w (fun _ _ => True)
      (fun id st' => ∃ before, I before ∧ id = before.started + 1 ∧
        st' = (before.launch text speed callback).2) st := by
    simp only [Request.start, Request.halt, Request.Ensures]
    split
    · exact ⟨st, h, rfl, rfl⟩
    · rename_i session _
      intro mid hm
      have hmid := hI.removeJob (hI.moves (hI.cancelJob (hI.letGo h) session.id) hm) session.id
      refine ⟨trivial, fun outcome _ => ?_⟩
      split
      · refine Request.ensures_performAll _ ⟨_, ?_, rfl, rfl⟩
        exact hI.perform (hI.perform hmid (.setState .cancelled))
          (.publish (.cancelled session.id))
      · exact ⟨_, hmid, rfl, rfl⟩
  exact hensures.steps hs

end Stable
end Stage
end TextReveal
