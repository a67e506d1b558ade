import TextReveal.Proofs.Failing
import TextReveal.Proofs.Suspending
/-!
How far a session gets whose waits may fail. Up to the first failed wait it goes through its acts as
if none would fail, and where it stops to wait, or has waited in vain, it has a look before it.
-/
namespace TextReveal
open Number

/-- Whether a session that is asleep looks first of all whether it is cancelled, when its wait is
over. -/
def Status.Looks (r : Registry) : Status → Prop
  | .asleep _ next => ((next .elapsed).acts r).head? = some .looked
  | _ => True

namespace Stage
variable {σ : Type} [TimeBase σ]

/-- What a turn of a session with these acts comes to, where this has been told before it. It has
done the first of them; then it has either stopped with the rest before it, or gone on from a failed
wait as such a session. -/
inductive Goes (Q : Session → Prop) (through : Bool) (r : Registry) (acts : List Act)
    (told : List Entry) : Status × Stage σ → Prop
  | stops {status : Status} {st : Stage σ} (done : List Act) (hacts : acts = done ++ status.acts r)
    (hfails : status.FailsTo Q r) (hlooks : Act.Attentive acts → status.Looks r)
    (hrecord : st.record = told ++ done.filterMap Act.note?) :
    Goes Q through r acts told (status, st)
  | fails {s : Session} {share : Nat} {st : Stage σ} (done rest : List Act)
    (hacts : acts = done ++ rest) (hs : Q s)
    (hlooks : Act.Attentive acts → rest.head? = some .looked)
    (hrecord : st.record = told ++ done.filterMap Act.note?) :
    Goes Q through r acts told (drive ⟨false, through⟩ s share st)

variable {Q : Session → Prop} {through : Bool} {r : Registry} {acts : List Act} {act : Act}
  {told : List Entry} {after : Status × Stage σ} {st : Stage σ}

theorem Goes.nothing (status : Status) (hfails : status.FailsTo Q r)
    (hlooks : Act.Attentive (status.acts r) → status.Looks r) (hrecord : st.record = told) :
    Goes Q through r (status.acts r) told (status, st) :=
  .stops [] rfl hfails hlooks (hrecord.trans (List.append_nil _).symm)

theorem Goes.cons (h : Goes Q through r acts (told ++ act.note?.toList) after) :
    Goes Q through r (act :: acts) told after := by
  have hnotes (done : List Act) : told ++ act.note?.toList ++ done.filterMap Act.note? =
      told ++ (act :: done).filterMap Act.note? := by
    rw [List.append_assoc, List.filterMap_cons]
    cases act.note? <;> rfl
  cases h with
  | stops done hacts hfails hlooks hrecord =>
    exact .stops (act :: done) (congrArg _ hacts) hfails (fun h => hlooks h.2)
      (hrecord.trans (hnotes done))
  | fails done rest hacts hs hlooks hrecord =>
    exact .fails (act :: done) rest (congrArg _ hacts) hs (fun h => hlooks h.2)
      (hrecord.trans (hnotes done))

/-- An act that is not written down. -/
theorem Goes.cons_silent (h : Goes Q through r acts told after) (hnote : act.note? = none) :
    Goes Q through r (act :: acts) told after := by
  refine .cons ?_
  rwa [hnote, Option.toList_none, List.append_nil]

theorem goes_drive {s : Session} (h : s.FailsTo Q r) (hregistry : st.registry = r)
    (hrecord : st.record = told) (through : Bool) (share : Nat) :
    Goes Q through r (s.acts r) told (drive ⟨false, through⟩ s share st) := by
  -- Each node is one act or none; only a wait that fails leaves the acts.
  induction s generalizing share st told with
  | ended outcome => exact .nothing (.ended outcome) trivial (fun _ => trivial) hrecord
  | crashed => exact .nothing .crashed trivial (fun _ => trivial) hrecord
  | perform e next ih =>
    refine .cons (ih h ((keeps_perform st e).registry.trans hregistry) ?_ share)
    rw [record_perform, hrecord]
  | resolve name next ih =>
    rw [drive, hregistry]
    exact ih _ h hregistry hrecord share
  | check next ih => exact (ih false h hregistry hrecord share).cons_silent rfl
  | yield next ih =>
    show Goes Q through r (.yielded :: next.acts r) told _
    refine .cons_silent ?_ rfl
    rw [drive]
    split
    · exact ih h hregistry hrecord _
    · exact .nothing (.ready next) h (fun _ => trivial) hrecord
  | breathe next ih =>
    rw [drive]
    split
    · exact ih h hregistry hrecord _
    · split
      · exact ih h hregistry hrecord _
      · exact .nothing (.ready next) h (fun _ => trivial) hrecord
  | sleep seconds next ih =>
    obtain ⟨hfails, hnext⟩ := h
    have hasked (clock : σ) : ({ st with clock }.note (.asked seconds)).record =
        told ++ (Act.asked seconds).note?.toList := by
      rw [record_note, ← hrecord]
      rfl
    simp only [drive]
    show Goes Q through r (.asked seconds :: (next .elapsed).acts r) told _
    obtain ⟨answer, clock⟩ := TimeBase.request st.clock seconds
    cases answer with
    | elapsed =>
      refine .cons (ih .elapsed hnext ?_ (hasked clock) _)
      exact hregistry
    | failed reason =>
      exact .fails [.asked seconds] _ rfl (hfails reason) (fun h => h.1 rfl) (hasked clock)
    | pending =>
      exact .stops [.asked seconds] rfl ⟨hfails, hnext⟩ (fun h => h.1 rfl) (hasked clock)

theorem goes_resume {status : Status} (h : status.FailsTo Q r) (hlooks : status.Looks r)
    (hregistry : st.registry = r) (hrecord : st.record = told) (through : Bool) :
    Goes Q through r (status.acts r) told (resume ⟨false, through⟩ status st) := by
  cases status with
  | ended outcome => exact .nothing (.ended outcome) trivial (fun _ => trivial) hrecord
  | crashed => exact .nothing .crashed trivial (fun _ => trivial) hrecord
  | ready s => exact goes_drive h hregistry hrecord through _
  | asleep seconds next =>
    obtain ⟨hfails, hnext⟩ := h
    simp only [resume]
    obtain ⟨answer, clock⟩ := TimeBase.again st.clock seconds
    rw [if_neg Bool.false_ne_true]
    have hsame : ({ st with clock } : Stage σ).record = told ++ [] := by
      rw [List.append_nil]
      exact hrecord
    cases answer with
    | elapsed =>
      refine goes_drive hnext ?_ ?_ through _
      · exact hregistry
      · exact hrecord
    | failed reason => exact .fails [] _ rfl (hfails reason) (fun _ => hlooks) hsame
    | pending => exact .stops [] rfl ⟨hfails, hnext⟩ (fun _ => hlooks) hsame

end Stage
end TextReveal
