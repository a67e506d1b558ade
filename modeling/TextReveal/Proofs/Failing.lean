import TextReveal.Player.Stage
/-!
Sessions whose waits may fail: what is behind a failed wait, wherever one may fail first.
-/
namespace TextReveal

/-- An effect that goes on like this behind the first wait that fails. -/
def LiveEffect.FailsTo (P : LiveEffect → Prop) : LiveEffect → Prop
  | .done _ => True
  | .signal _ next => next.FailsTo P
  | .wait _ resume => (∀ reason, P (resume (.error reason))) ∧ (resume (.ok ())).FailsTo P

def Handler.FailsTo (P : LiveEffect → Prop) (h : Handler) : Prop :=
  ∀ ctx parameter, (h.openLive ctx parameter).FailsTo P

def Registry.FailsTo (P : LiveEffect → Prop) (r : Registry) : Prop :=
  ∀ name h, r.get? name = some h → h.FailsTo P

theorem Handler.FailsTo.of_untimed {P : LiveEffect → Prop} {h : Handler} (hlive : h.live = none) :
    h.FailsTo P := by
  intro ctx parameter
  rw [openLive, hlive]
  trivial

namespace Session

/-- A session, not cancelled, that goes on like this behind the first wait that fails. -/
def FailsTo (Q : Session → Prop) (r : Registry) : Session → Prop
  | .ended _ | .crashed => True
  | .perform _ next | .yield next | .breathe next => next.FailsTo Q r
  | .resolve name next => (next (r.get? name)).FailsTo Q r
  | .check next => (next false).FailsTo Q r
  | .sleep _ next => (∀ reason, Q (next (.failed reason))) ∧ (next .elapsed).FailsTo Q r

variable {P : LiveEffect → Prop} {Q : Session → Prop} {id : Nat} {r : Registry}

theorem failsTo_guarded {next : Unit → Session} (h : (next ()).FailsTo Q r) :
    (guarded id next).FailsTo Q r := h

theorem failsTo_delay {ctx : Context} {next : Unit → Session} (habandon : Q (abandon id))
    (h : (next ()).FailsTo Q r) : (delay id ctx next).FailsTo Q r := by
  unfold delay
  split
  · exact ⟨fun _ => habandon, h⟩
  · exact h

theorem failsTo_turn {step : Nat} {ctx : Context} {next : Unit → Session}
    (h : (next ()).FailsTo Q r) : (turn id step ctx next).FailsTo Q r := by
  refine failsTo_guarded ?_
  split
  · exact h
  · exact h

theorem failsTo_signals {list : List Signal} {next : Session} (h : next.FailsTo Q r) :
    (signals list next).FailsTo Q r := by
  induction list with
  | nil => exact h
  | cons s list ih => exact ih

theorem failsTo_judge {reply : Reply} {next : Context → Response → Session}
    (h : ∀ ctx response, (next ctx response).FailsTo Q r) : (judge id reply next).FailsTo Q r := by
  unfold judge
  split
  · exact h _ _
  · trivial
  · exact h _ _
  · trivial

theorem failsTo_ofLive {effect : LiveEffect} {next : Context → Response → Session}
    (hlive : ∀ effect, P effect → Q (ofLive id next effect)) (heffect : effect.FailsTo P)
    (h : ∀ ctx response, (next ctx response).FailsTo Q r) :
    (ofLive id next effect).FailsTo Q r := by
  induction effect with
  | done reply =>
    refine failsTo_signals ?_
    split
    · trivial
    · exact failsTo_guarded (failsTo_judge h)
  | signal s effect ih => exact ih heffect
  | wait seconds resume ih =>
    rw [ofLive]
    exact ⟨fun reason => hlive _ (heffect.1 reason), ih _ heffect.2⟩

theorem failsTo_runTag {h : Handler} {t : Tag} {ctx : Context}
    {next : Context → Response → Session}
    (hlive : ∀ effect, P effect → Q (ofLive id next effect)) (hh : h.FailsTo P)
    (hnext : ∀ ctx response, (next ctx response).FailsTo Q r) :
    (runTag id h t ctx next).FailsTo Q r := by
  unfold runTag
  split
  · exact failsTo_signals (failsTo_judge hnext)
  · split
    · exact failsTo_ofLive hlive (hh ctx t.parameter) hnext
    · exact failsTo_signals (failsTo_judge hnext)

theorem failsTo_announce {text : Option String} {offset : Nat} {next : Session}
    (h : next.FailsTo Q r) : (announce text offset next).FailsTo Q r := by
  cases text <;> exact h

theorem failsTo_showResponse {position : Nat} {response : Response} {ctx : Context}
    {next : Context → Session} (habandon : Q (abandon id)) (h : ∀ ctx, (next ctx).FailsTo Q r) :
    (showResponse id position response ctx next).FailsTo Q r := by
  refine failsTo_announce ?_
  show FailsTo Q r (ite _ _ _)
  split
  · exact failsTo_delay habandon (h _)
  · exact h _

theorem failsTo_showChar {position : Nat} {c : Char} {ctx : Context} {next : Context → Session}
    (habandon : Q (abandon id)) (h : ∀ ctx, (next ctx).FailsTo Q r) :
    (showChar id position c ctx next).FailsTo Q r := by
  unfold showChar
  refine failsTo_announce ?_
  exact failsTo_delay habandon (h _)

theorem failsTo_reveal (habandon : Q (abandon id))
    (hlive : ∀ effect next, P effect → Q (ofLive id next effect)) (hr : r.FailsTo P)
    (policy : UnknownTags) (chars : List Char) (position resume steps : Nat) (tags : List Tag)
    (ctx : Context) :
    (reveal id policy chars position resume steps tags ctx).FailsTo Q r := by
  induction chars generalizing position resume steps tags ctx with
  | nil => trivial
  | cons c rest ih =>
    rw [reveal]
    split
    · exact ih ..
    · refine failsTo_turn ?_
      dsimp only
      split
      · exact failsTo_showChar habandon fun _ => ih ..
      · rw [FailsTo]
        split
        · rename_i h hget
          exact failsTo_runTag (fun effect => hlive effect _) (hr _ h hget) fun _ _ =>
            failsTo_showResponse habandon fun _ => ih ..
        · cases policy with
          | consume => exact ih ..
          | literal => exact failsTo_showChar habandon fun _ => ih ..

end Session

def Status.FailsTo (Q : Session → Prop) (r : Registry) : Status → Prop
  | .ready s => s.FailsTo Q r
  | .asleep _ next => (∀ reason, Q (next (.failed reason))) ∧ (next .elapsed).FailsTo Q r
  | .ended _ | .crashed => True

end TextReveal
