import TextReveal.Proofs.Builtins
import TextReveal.Proofs.Course
import TextReveal.Proofs.Solo
/-!
Live sessions and instant passes agree: over handlers to which mode and speed make no difference, a
session that runs through shows the final text at last.
-/
namespace TextReveal

/-- What an effect comes to if its waits succeed. -/
def LiveEffect.settled : LiveEffect → Reply
  | .done reply => reply
  | .signal _ next => next.settled
  | .wait _ resume => (resume (.ok ())).settled

/-- A relation between the contexts of a session and those of an instant pass. Whatever it demands,
they show the same text. -/
structure Context.Likeness (alike : Context → Context → Prop) : Prop where
  start (source : String) (speed speed' : Number.Single) :
    alike { source, speed, mode := .live } { source, speed := speed', mode := .instant }
  buffer {a b : Context} (h : alike a b) : a.buffer = b.buffer
  move {a b : Context} (h : alike a b) (cursor : Nat) : alike { a with cursor } { b with cursor }
  append {a b : Context} (h : alike a b) (text : String) : alike (a.append text) (b.append text)

/-- Contexts that differ in mode and speeds only. -/
def Context.SameText (a b : Context) : Prop :=
  a.source = b.source ∧ a.cursor = b.cursor ∧ a.extensions = b.extensions ∧ a.buffer = b.buffer

theorem Context.likeness_sameText : Likeness SameText where
  start _ _ _ := ⟨rfl, rfl, rfl, rfl⟩
  buffer h := h.2.2.2
  move h _ := ⟨h.1, rfl, h.2.2⟩
  append h text := ⟨h.1, h.2.1, h.2.2.1, congrArg (· ++ text) h.2.2.2⟩

/-- Whether a session ends over a verdict: the handler has broken down, or blames the clock. -/
def Verdict.breaksOff : Verdict → Bool
  | .crashed | .failed (.clock _) => true
  | _ => false

/-- A live reply that an instant one matches. -/
structure Reply.Agrees (alike : Context → Context → Prop) (live instant : Reply) : Prop where
  goesOn : live.verdict.breaksOff = false
  response : live.response = instant.response
  context : alike live.context instant.context

/-- A handler to which it makes no difference whether it is called live or in an instant pass, so
long as its waits succeed and it does not break the session off. -/
structure Handler.Timeless (alike : Context → Context → Prop) (h : Handler) (parameter : String) :
    Prop where
  opening {live instant : Context} (ha : alike live instant) :
    (h.openLive live parameter).settled.verdict.breaksOff ∨
      (h.openLive live parameter).settled.Agrees alike (h.opening instant parameter)
  closing {live instant : Context} (ha : alike live instant) :
    (h.closing live).verdict.breaksOff ∨ (h.closing live).Agrees alike (h.closing instant)

/-- A registry whose handlers of the tags in a text are timeless. -/
def Registry.Timeless (alike : Context → Context → Prop) (r : Registry) (text : String) : Prop :=
  ∀ t ∈ Tag.lex text, ∀ h, r.get? t.name = some h → h.Timeless alike t.parameter

/-- The reply that a session goes on with behind a tag. -/
def Session.liveReply (h : Handler) (t : Tag) (ctx : Context) : Reply :=
  if t.closes h then h.closing ctx else (h.openLive ctx t.parameter).settled

/-- Whether the handler of a tag may report a failure of the clock by itself. -/
def Handler.BlamesClock (h : Handler) (t : Tag) : Prop :=
  ∃ ctx reason, (Session.liveReply h t ctx).verdict = .failed (.clock reason)

def Registry.BlamesClock (r : Registry) (text : String) : Prop :=
  ∃ t ∈ Tag.lex text, ∃ h, r.get? t.name = some h ∧ h.BlamesClock t

namespace Session
variable {id : Nat} {r : Registry} {v : View}

theorem finish_guarded {next : Unit → Session} :
    (guarded id next).finish r v = (next ()).finish r v := rfl

theorem finish_delay {ctx : Context} {next : Unit → Session} :
    (delay id ctx next).finish r v = (next ()).finish r v := by
  unfold delay
  split <;> rfl

theorem finish_turn {step : Nat} {ctx : Context} {next : Unit → Session} :
    (turn id step ctx next).finish r v = (next ()).finish r v := by
  rw [turn, finish_guarded]
  split <;> rfl

theorem finish_signals {list : List Signal} {next : Session} :
    (signals list next).finish r v = next.finish r v := by
  induction list with
  | nil => rfl
  | cons s list ih => exact ih

theorem finish_announce {text : Option String} {offset : Nat} {next : Session} :
    (announce text offset next).finish r v = next.finish r v := by
  cases text <;> rfl

theorem finish_ofReply {reply : Reply} {next : Context → Response → Session} :
    (ofReply id reply next).finish r v = (judge id reply next).finish r v :=
  finish_signals

theorem finish_ofLive {effect : LiveEffect} {next : Context → Response → Session} :
    (ofLive id next effect).finish r v = (judge id effect.settled next).finish r v := by
  induction effect with
  | done reply =>
    rw [ofLive, finish_signals, LiveEffect.settled]
    split
    · rename_i hcrashed
      rw [judge, hcrashed]
    · rfl
  | signal s effect ih => exact ih
  | wait seconds resume ih =>
    rw [ofLive]
    exact ih _

theorem finish_runTag {h : Handler} {t : Tag} {ctx : Context}
    {next : Context → Response → Session} :
    (runTag id h t ctx next).finish r v =
      (judge id (liveReply h t ctx) next).finish r v := by
  unfold runTag liveReply
  split
  · exact finish_ofReply
  · split
    · exact finish_ofLive
    · rename_i huntimed
      have hlive : h.live = none := by simpa [Handler.isTimed] using huntimed
      rw [finish_ofReply, Handler.openLive, hlive]
      rfl

theorem finish_showResponse {position : Nat} {response : Response} {ctx : Context}
    {next : Context → Session} :
    (showResponse id position response ctx next).finish r v =
      (next (ctx.append response.shown)).finish r
        { v with shown := (ctx.append response.shown).buffer } := by
  rw [showResponse, finish_announce]
  show finish r (ite _ _ _) _ = _
  split
  · exact finish_delay
  · rfl

theorem finish_showChar {position : Nat} {c : Char} {ctx : Context} {next : Context → Session} :
    (showChar id position c ctx next).finish r v =
      (next (ctx.append c.toString)).finish r
        { v with shown := (ctx.append c.toString).buffer } := by
  rw [showChar, finish_announce]
  exact finish_delay

/-- An end where this text is shown, unless a handler has broken down, or has blamed the clock. -/
def EndsWith (blamed : Prop) (text : String) (finished : Option Outcome × View) : Prop :=
  finished.1 = none ∨ finished.1 = some .cancelled ∧ blamed ∨
    finished = (some .completed, ⟨text, .completed⟩)

theorem endsWith_judge_of_breaksOff {h : Handler} {t : Tag} {ctx : Context}
    (hbreaks : (liveReply h t ctx).verdict.breaksOff) {next : Context → Response → Session}
    {blamed : Prop} (hblamed : h.BlamesClock t → blamed) (text : String) :
    EndsWith blamed text ((judge id (liveReply h t ctx) next).finish r v) := by
  unfold judge
  cases hv : (liveReply h t ctx).verdict with
  | answered => simp [hv, Verdict.breaksOff] at hbreaks
  | crashed => exact .inl rfl
  | failed failure =>
    cases failure with
    | clock reason => exact .inr (.inl ⟨rfl, hblamed ⟨ctx, reason, hv⟩⟩)
    | badParameter => simp [hv, Verdict.breaksOff] at hbreaks
    | other => simp [hv, Verdict.breaksOff] at hbreaks

/-- Otherwise a session goes on as an instant pass does. -/
theorem judge_of_goesOn {reply : Reply} (h : reply.verdict.breaksOff = false)
    {next : Context → Response → Session} :
    judge id reply next = next reply.context reply.response := by
  unfold judge Reply.response
  cases hv : reply.verdict with
  | answered => rfl
  | crashed => simp [hv, Verdict.breaksOff] at h
  | failed failure =>
    cases failure with
    | clock => simp [hv, Verdict.breaksOff] at h
    | badParameter => rfl
    | other => rfl

theorem agrees_liveReply {alike : Context → Context → Prop} {h : Handler} {t : Tag}
    (htimeless : h.Timeless alike t.parameter) {live instant : Context}
    (ha : alike live instant) :
    (liveReply h t live).verdict.breaksOff ∨
      (liveReply h t live).Agrees alike (Instant.respond h t instant) := by
  unfold liveReply Instant.respond
  split
  · exact htimeless.closing ha
  · exact htimeless.opening ha

/-- The loop of a session and that of an instant pass, side by side. -/
theorem endsWith_reveal {alike : Context → Context → Prop} (hlike : Context.Likeness alike)
    (policy : UnknownTags) {chars : List Char} {position resume steps : Nat} {tags : List Tag}
    {live instant : Context} {state : State} {blamed : Prop}
    (htimeless : ∀ t ∈ tags, ∀ h, r.get? t.name = some h → h.Timeless alike t.parameter)
    (hblamed : ∀ t ∈ tags, ∀ h, r.get? t.name = some h → h.BlamesClock t → blamed)
    (ha : alike live instant) :
    EndsWith blamed (Instant.walk r policy chars position resume tags instant).context.buffer
      ((reveal id policy chars position resume steps tags live).finish r
        ⟨live.buffer, state⟩) := by
  -- Both loops are at the same character with the same tags to come, in contexts that are alike.
  induction chars generalizing position resume steps tags live instant with
  | nil => exact .inr (.inr (by rw [hlike.buffer ha]; rfl))
  | cons c rest ih =>
    rw [reveal, Instant.walk]
    split
    · exact ih htimeless hblamed ha
    · rw [finish_turn]
      have hmoved := hlike.move ha position
      cases hreach : Tag.reach position tags with
      | mk here later =>
        obtain ⟨hhere, hlater⟩ := Tag.mem_of_reach hreach
        have htimeless' : ∀ t ∈ later, ∀ h, r.get? t.name = some h →
            h.Timeless alike t.parameter := fun t ht => htimeless t (hlater t ht)
        have hblamed' : ∀ t ∈ later, ∀ h, r.get? t.name = some h → h.BlamesClock t → blamed :=
          fun t ht => hblamed t (hlater t ht)
        have hchar : EndsWith blamed
            (Instant.walk r policy rest (position + c.utf8Size) (position + c.utf8Size) later
              (Context.append { instant with cursor := position } c.toString)).context.buffer
            ((showChar id position c { live with cursor := position }
              (reveal id policy rest (position + c.utf8Size) (position + c.utf8Size) (steps + 1)
                later)).finish r ⟨live.buffer, state⟩) := by
          rw [finish_showChar]
          exact ih htimeless' hblamed' (hlike.append hmoved _)
        cases here with
        | none => exact hchar
        | some t =>
          simp only [finish]
          cases hget : r.get? t.name with
          | none =>
            cases policy with
            | consume => exact ih htimeless' hblamed' hmoved
            | literal => exact hchar
          | some h =>
            dsimp only
            rw [finish_runTag]
            obtain hbreaks | hagrees :=
              agrees_liveReply (htimeless t (hhere t rfl) h hget) hmoved
            · exact endsWith_judge_of_breaksOff hbreaks (hblamed t (hhere t rfl) h hget) _
            · rw [judge_of_goesOn hagrees.goesOn, hagrees.response, finish_showResponse]
              exact ih htimeless' hblamed' (hlike.append hagrees.context _)

/-- A session comes to the end that an instant pass comes to, at whatever speed. -/
theorem endsWith_start {alike : Context → Context → Prop} (hlike : Context.Likeness alike)
    {policy : UnknownTags} {text : String} {speed speed' : Number.Single} {state : State}
    (htimeless : r.Timeless alike text) :
    EndsWith (r.BlamesClock text) (renderInstant r policy text (Tag.lex text) speed').context.buffer
      ((start id policy text (Tag.lex text) speed).finish r ⟨"", state⟩) :=
  endsWith_reveal hlike policy htimeless
    (fun t ht h hget hblames => ⟨t, ht, h, hget, hblames⟩) (hlike.start text speed speed')

end Session

/-- A handler that breaks no session off, and shows the same text live and at once. -/
structure Handler.ShowsAlike (h : Handler) : Prop where
  opening {live instant : Context} (ha : live.SameText instant) (parameter : String) :
    (h.openLive live parameter).settled.Agrees Context.SameText (h.opening instant parameter)
  closing {live instant : Context} (ha : live.SameText instant) :
    (h.closing live).Agrees Context.SameText (h.closing instant)

theorem Handler.ShowsAlike.timeless {h : Handler} (hh : h.ShowsAlike) (parameter : String) :
    h.Timeless Context.SameText parameter :=
  ⟨fun ha => .inr (hh.opening ha parameter), fun ha => .inr (hh.closing ha)⟩

theorem Handler.agrees_withSeconds {alike : Context → Context → Prop} {live instant : Context}
    {next next' : Number.Single → Reply} {tag parameter : String} (ha : alike live instant)
    (hnext : ∀ seconds, (next seconds).Agrees alike (next' seconds)) :
    (withSeconds tag parameter live next).Agrees alike
      (withSeconds tag parameter instant next') := by
  unfold withSeconds
  split
  · exact hnext _
  · exact ⟨rfl, rfl, ha⟩

theorem Handler.showsAlike_speed : speed.ShowsAlike where
  opening ha parameter := by
    show (speed.opening _ _).Agrees _ _
    rw [opening_speed, opening_speed]
    exact agrees_withSeconds ha fun _ => ⟨rfl, rfl, ha⟩
  closing ha := ⟨rfl, rfl, ha⟩

theorem Handler.showsAlike_speedRegion : speedRegion.ShowsAlike where
  opening ha parameter := by
    show (speedRegion.opening _ _).Agrees _ _
    rw [opening_speedRegion, opening_speedRegion]
    exact agrees_withSeconds ha fun _ => ⟨rfl, rfl, ha⟩
  closing ha := by
    unfold speedRegion
    dsimp only
    -- The regions that are open may differ: only speeds depend on them.
    split <;> split <;> exact ⟨rfl, rfl, ha⟩

/-- A pause comes to what it is in an instant pass. -/
theorem Handler.settled_openLive_pause (ctx : Context) (parameter : String) :
    (pause.openLive ctx parameter).settled = pause.opening ctx parameter := by
  simp only [openLive, pause, untimedPause, withSeconds]
  cases seconds? parameter with
  | none => rfl
  | some s =>
    dsimp only
    split <;> rfl

theorem Handler.showsAlike_pause : pause.ShowsAlike where
  opening ha parameter := by
    rw [settled_openLive_pause, opening_pause, opening_pause]
    exact agrees_withSeconds ha fun _ => ⟨rfl, rfl, ha⟩
  closing ha := ⟨rfl, rfl, ha⟩

theorem Handler.showsAlike_of_mem_builtins {hub : HubRef} {h : Handler}
    (hmem : h ∈ Registry.builtins hub) : h.ShowsAlike := by
  obtain ⟨name, hbuiltin⟩ := Registry.mem_builtins.mp hmem
  cases hbuiltin with
  | markup => exact ⟨fun ha _ => ⟨rfl, rfl, ha⟩, fun ha => ⟨rfl, rfl, ha⟩⟩
  | lineBreak => exact ⟨fun ha _ => ⟨rfl, rfl, ha⟩, fun ha => ⟨rfl, rfl, ha⟩⟩
  | speed => exact showsAlike_speed
  | speedRegion => exact showsAlike_speedRegion
  | pause => exact showsAlike_pause
  | clear =>
    refine ⟨fun ha _ => ⟨rfl, rfl, ?_⟩, fun ha => ⟨rfl, rfl, ha⟩⟩
    exact ⟨ha.1, ha.2.1, ha.2.2.1, rfl⟩
  | action => exact ⟨fun ha _ => ⟨rfl, rfl, ha⟩, fun ha => ⟨rfl, rfl, ha⟩⟩

theorem Registry.timeless_withBuiltins (hub : HubRef) (text : String) :
    (withBuiltins hub).Timeless Context.SameText text := by
  intro t _ h hget
  rw [get?_withBuiltins] at hget
  exact (Handler.showsAlike_of_mem_builtins (mem_builtins.mpr ⟨_, hget⟩)).timeless _

namespace Stage
variable {σ : Type}

/-- A player that has completed, and shows the final text of `text`, which is also what an instant
pass shows at `speed`. -/
structure ShowsFinal (text : String) (speed : Option Number.Single) (st : Stage σ) : Prop where
  state : st.player.state = .completed
  finalText : st.display = (st.finalText text).1
  instant : st.display = (renderInstant st.registry st.player.config.unknownTags text (Tag.lex text)
    (speed.getD st.player.config.defaultSpeed)).context.buffer

theorem view_launch (st : Stage σ) (text : String) (speed : Option Number.Single)
    (callback : Bool) : (st.launch text speed callback).2.view = ⟨"", .typing⟩ := by
  show (((st.perform (.frame "")).perform (.setState .typing)).perform
    (.publish (.started _))).view = _
  simp only [view_perform, View.after]

theorem OnCourse.showsFinal {alike : Context → Context → Prop} {text : String}
    {speed : Option Number.Single} {callback : Bool} {id n : Nat} {before st : Stage σ}
    {status : Status} (hlike : Context.Likeness alike)
    (htimeless : before.registry.Timeless alike text)
    (h : OnCourse id (before.opening text speed) (before.launch text speed callback).2 n st status)
    (hover : status.isOver) :
    status = .crashed ∨ status = .ended .cancelled ∧ before.registry.BlamesClock text ∨
      status = .ended .completed ∧ st.ShowsFinal text speed := by
  have hfinish := h.finish
  rw [view_launch] at hfinish
  have hends (speed' : Number.Single) : Session.EndsWith (before.registry.BlamesClock text)
      (renderInstant st.registry st.player.config.unknownTags text (Tag.lex text)
        speed').context.buffer (status.finish before.registry st.view) := by
    rw [h.registry, h.config]
    exact hfinish ▸ Session.endsWith_start hlike htimeless
  cases status with
  | ready => cases hover
  | asleep => cases hover
  | crashed => exact .inl rfl
  | ended outcome =>
    -- The speed of the pass does not show: the final text is taken at the default speed, the
    -- display also at the one that was asked for.
    obtain hnone | ⟨hcancelled, hblamed⟩ | hdefault := hends st.player.config.defaultSpeed
    · cases hnone
    · obtain rfl : outcome = .cancelled := Option.some.inj hcancelled
      exact .inr (.inl ⟨rfl, hblamed⟩)
    · simp only [Status.finish, view, Prod.mk.injEq, Option.some.injEq, View.mk.injEq] at hdefault
      obtain ⟨rfl, hfinal, hstate⟩ := hdefault
      obtain hnone | ⟨hcancelled, -⟩ | hspeed := hends (speed.getD st.player.config.defaultSpeed)
      · cases hnone
      · cases hcancelled
      · exact .inr (.inr ⟨rfl, hstate, hfinal, congrArg (View.shown ∘ Prod.snd) hspeed⟩)

end Stage

/-- A session over timeless handlers, which its owner does not cancel and no clock fails, can go on
only so often. When it is over, a handler has broken down or blamed the clock, or the session has
completed and shows the text that an instant pass shows at its own speed, and at the default. All
built-in handlers are timeless, and do neither. -/
theorem Stage.History.shows_finalText {σ : Type} [TimeBase σ] {w : Surroundings σ}
    {registry : Registry} {clock : σ} {config : Config} {hub : HubRef} {start st begun : Stage σ}
    {calls : List Command} {text : String} {speed : Option Number.Single} {callback : Bool}
    {id : Nat} {alike : Context → Context → Prop}
    (hnew : Stage.new? registry clock config hub = some start) (h : History w start calls st)
    (hs : Request.Steps w (.start text speed callback, st) (.done id, begun))
    (hlike : Context.Likeness alike) (htimeless : begun.registry.Timeless alike text) :
    (∃ bound, ∀ n after, begun.Undisturbed n after → n ≤ bound ∧
      ∃ status, after.jobs = [⟨id, status, false⟩] ∧ (status.isOver → status = .crashed ∨
        status = .ended .cancelled ∧ begun.registry.BlamesClock text ∨
        status = .ended .completed ∧ after.ShowsFinal text speed)) ∧
    Context.Likeness Context.SameText ∧ ∀ hub, ∀ h ∈ Registry.builtins hub,
      h.ShowsAlike ∧ ∀ parameter, h.Timeless Context.SameText parameter := by
  obtain ⟨before, hjobs, rfl, rfl⟩ := h.launched hnew hs
  have htimeless : before.registry.Timeless alike text := htimeless
  refine ⟨⟨(before.opening text speed).span before.registry, fun n after hrun => ?_⟩,
    Context.likeness_sameText, fun _ h hmem => ?_⟩
  · have halone := jobs_launch before text speed callback
    rw [hjobs, List.nil_append] at halone
    obtain ⟨status, hcourse⟩ := hrun.onCourse halone
    have hfinal := hcourse.showsFinal hlike htimeless
    exact ⟨Nat.le_of_add_left_le hcourse.span, status, hcourse.jobs, hfinal⟩
  · have halike := Handler.showsAlike_of_mem_builtins hmem
    exact ⟨halike, halike.timeless⟩

/-- A text with a style and a pause, shown in one turn where every wait is over at once. -/
theorem Stage.History.shows_finalText_of_turn :
    ∃ start begun : Stage Clock,
      Stage.new? (.withBuiltins .own) { isOpen := true } {} .own = some start ∧
      Request.Steps ⟨fun _ => True, fun _ => True⟩
        (.start "a[b]c[pause=1][/b]" none true, start) (.done 1, begun) ∧
      Context.Likeness Context.SameText ∧
      begun.registry.Timeless Context.SameText "a[b]c[pause=1][/b]" ∧
      begun.Undisturbed 1 (begun.turn true 0) ∧
      (begun.turn true 0).ShowsFinal "a[b]c[pause=1][/b]" none ∧
      (begun.turn true 0).display = "a<b>c</b>" := by
  have hrun : ((Stage.new? (.withBuiltins .own) ({ isOpen := true } : Clock) {} .own).bind
      fun start => ((Request.start "a[b]c[pause=1][/b]" none true).run? start).map fun begun =>
        ((begun.1, begun.2.turnFails true 0, begun.2.turnGoesOn 0),
          (begun.2.turn true 0).jobs.map (·.status.outcome?), (begun.2.turn true 0).display)) =
      some ((1, false, true), [some .completed], "a<b>c</b>") := by
    decide +kernel
  simp only [Option.bind_eq_some_iff, Option.map_eq_some_iff, Prod.mk.injEq] at hrun
  obtain ⟨start, hnew, ⟨id, begun⟩, hbegun, ⟨rfl, hclock, hgoes⟩, houtcome, hshown⟩ := hrun
  have hsteps := Request.steps_of_run? ⟨fun _ => True, fun _ => True⟩ hbegun
  have hregistry : begun.registry = .withBuiltins .own := by
    obtain ⟨channel, -, rfl⟩ := Option.map_eq_some_iff.mp hnew
    cases hbegun
    rfl
  have htimeless : begun.registry.Timeless Context.SameText "a[b]c[pause=1][/b]" := by
    rw [hregistry]
    exact Registry.timeless_withBuiltins .own _
  have hundisturbed : begun.Undisturbed 1 (begun.turn true 0) := by
    have hturn := Undisturbed.begin.turn true 0 hclock
    rwa [hgoes] at hturn
  obtain ⟨⟨bound, hbound⟩, -⟩ :=
    History.shows_finalText hnew .begin hsteps Context.likeness_sameText htimeless
  obtain ⟨-, status, hjobs, hover⟩ := hbound 1 _ hundisturbed
  refine ⟨start, begun, hnew, hsteps, Context.likeness_sameText, htimeless, hundisturbed, ?_,
    hshown⟩
  rw [hjobs] at houtcome
  cases status with
  | ready => cases houtcome
  | asleep => cases houtcome
  | crashed => cases houtcome
  | ended outcome =>
    obtain rfl : outcome = .completed := by simpa [Status.outcome?] using houtcome
    obtain hcrashed | ⟨hcancelled, -⟩ | ⟨-, hfinal⟩ := hover rfl
    · cases hcrashed
    · cases hcancelled
    · exact hfinal

end TextReveal
