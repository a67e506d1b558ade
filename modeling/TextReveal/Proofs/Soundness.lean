import TextReveal.Proofs.Builtins
/-!
Handlers that never break down, among them all that are built in.
-/
namespace TextReveal

/-- An effect that ends in a verdict, whatever the clock answers. -/
def LiveEffect.Sound : LiveEffect → Prop
  | .done reply => reply.verdict ≠ .crashed
  | .signal _ next => next.Sound
  | .wait _ resume => ∀ answer, (resume answer).Sound

/-- A handler that never breaks down. -/
structure Handler.Sound (h : Handler) : Prop where
  opening (ctx : Context) (parameter : String) : (h.opening ctx parameter).verdict ≠ .crashed
  closing (ctx : Context) : (h.closing ctx).verdict ≠ .crashed
  live (ctx : Context) (parameter : String) : (h.openLive ctx parameter).Sound

def Registry.Sound (r : Registry) : Prop := ∀ name h, r.get? name = some h → h.Sound

theorem Handler.verdict_withSeconds {tag parameter : String} {ctx : Context}
    {next : Number.Single → Reply} (h : ∀ s, (next s).verdict ≠ .crashed) :
    (withSeconds tag parameter ctx next).verdict ≠ .crashed := by
  unfold withSeconds
  split
  · exact h _
  · simp [Reply.fail]

theorem Handler.Sound.of_untimed {h : Handler} (hlive : h.live = none)
    (hopening : ∀ ctx parameter, (h.opening ctx parameter).verdict ≠ .crashed)
    (hclosing : ∀ ctx, (h.closing ctx).verdict ≠ .crashed) : h.Sound where
  opening := hopening
  closing := hclosing
  live ctx parameter := by
    rw [Handler.openLive, hlive]
    exact hopening ctx parameter

theorem Verdict.answered_ne_crashed (response : Response) : answered response ≠ crashed := by
  simp

theorem Verdict.failed_ne_crashed (failure : Failure) : failed failure ≠ crashed := by
  simp

theorem Registry.IsBuiltin.sound {hub : HubRef} {name : String} {h : Handler}
    (hb : IsBuiltin hub name h) : h.Sound := by
  have hdone := Verdict.answered_ne_crashed
  cases hb with
  | markup => exact .of_untimed rfl (fun _ _ => hdone _) fun _ => hdone _
  | lineBreak => exact .of_untimed rfl (fun _ _ => hdone _) fun _ => hdone _
  | speed =>
    refine .of_untimed rfl (fun ctx parameter => ?_) fun _ => hdone _
    rw [Handler.opening_speed]
    exact Handler.verdict_withSeconds fun _ => hdone _
  | speedRegion =>
    refine .of_untimed rfl (fun ctx parameter => ?_) fun ctx => ?_
    · rw [Handler.opening_speedRegion]
      exact Handler.verdict_withSeconds fun _ => hdone _
    · simp only [Handler.speedRegion]
      split <;> exact hdone _
  -- The one timed handler: whatever its wait comes to, it answers or fails.
  | pause =>
    refine ⟨fun ctx parameter => ?_, fun _ => hdone _, fun ctx parameter => ?_⟩
    · rw [Handler.opening_pause]
      exact Handler.verdict_withSeconds fun _ => hdone _
    · simp only [Handler.openLive, Handler.pause]
      split
      · exact Verdict.failed_ne_crashed _
      · split
        · intro answer
          cases answer with
          | error => exact Verdict.failed_ne_crashed _
          | ok => exact hdone _
        · exact hdone _
  | clear => exact .of_untimed rfl (fun _ _ => hdone _) fun _ => hdone _
  | action => exact .of_untimed rfl (fun _ _ => hdone _) fun _ => hdone _

theorem Registry.sound_withBuiltins (hub : HubRef) : (withBuiltins hub).Sound :=
  fun _ _ hget => (get?_withBuiltins.mp hget).sound

end TextReveal
