import TextReveal.Proofs.Pacing
import TextReveal.Proofs.Suspending
import TextReveal.Proofs.Timers
import TextReveal.Proofs.Typing
/-!
Whether sessions last. A session over the built-in handlers that is left alone over a timer comes to
the end of its text, unless the text has it wait too long for the timer.
-/
namespace TextReveal
open Number

/-- Whether an entry is a wait that a timer refuses. -/
def Entry.isRefused : Entry → Bool
  | asked seconds => Clock.refuses seconds
  | _ => false

/-- Whether a wait in the course of a text is too long for a timer. -/
def Text.isOverlong (takes : Tag → Bool) (speed : Single) (text : String) : Bool :=
  (pace takes speed text).any Entry.isRefused

theorem Act.any_isRefused_beats (acts : List Act) :
    (beats acts).any Entry.isRefused = acts.any isRefused := by
  induction acts with
  | nil => rfl
  | cons act acts ih =>
    have hact : (beats [act]).any Entry.isRefused = act.isRefused := by
      unfold beats
      cases act with
      | asked seconds => exact Bool.or_false _
      | did effect =>
        cases effect with
        | publish event => cases event <;> rfl
        | signal s => cases s <;> rfl
        | _ => rfl
      | _ => rfl
    rw [← List.singleton_append, beats_append, List.any_append, ih, hact, List.singleton_append,
      List.any_cons]

/-- A tempo all of whose speeds are such. -/
structure Tempo.All (P : Single → Prop) (tempo : Tempo) : Prop where
  speed : P tempo.speed
  saved : ∀ s ∈ tempo.saved, P s

section
variable {P : Single → Prop} {tempo : Tempo} {tags : List Tag}

theorem Tempo.All.after {t : Tag} (h : tempo.All P)
    (ht : ∀ s, Handler.seconds? t.parameter = some s → P s) : (tempo.after t).All P := by
  have hspeed : P ((Handler.seconds? t.parameter).getD tempo.speed) := by
    cases hs : Handler.seconds? t.parameter with
    | none => exact h.speed
    | some s => exact ht s hs
  unfold Tempo.after
  split
  · exact ⟨hspeed, h.saved⟩
  · split
    · split
      · split
        · rename_i speed saved hsaved
          have hall := h.saved
          rw [hsaved, List.forall_mem_cons] at hall
          exact ⟨hall.1, hall.2⟩
        · exact h
      · exact ⟨hspeed, List.forall_mem_cons.mpr ⟨h.speed, h.saved⟩⟩
    · exact h

theorem Tempo.All.foldl (h : tempo.All P)
    (htags : ∀ t ∈ tags, ∀ s, Handler.seconds? t.parameter = some s → P s) :
    (tags.foldl Tempo.after tempo).All P := by
  induction tags generalizing tempo with
  | nil => exact h
  | cons t tags ih =>
    rw [List.forall_mem_cons] at htags
    exact ih (h.after htags.1) htags.2

end

namespace Text
variable {P : Single → Prop} {takes : Tag → Bool} {speed seconds : Single} {text : String}

/-- A text waits only for the speed that it starts with, and for what is written in its tags. -/
theorem of_asked_mem_pace (hspeed : P speed)
    (htags : ∀ t ∈ Tag.lex text, ∀ s, Handler.seconds? t.parameter = some s → P s)
    (h : .asked seconds ∈ pace takes speed text) : P seconds := by
  obtain ⟨⟨c, position⟩, -, hmem⟩ := List.mem_flatMap.mp h
  have htempo : (Tempo.upTo speed (Tag.lex text) position).All P := by
    apply Tempo.All.foldl ⟨hspeed, List.forall_mem_nil _⟩
    intro t ht
    exact htags t (List.mem_of_mem_filter ht)
  -- It is the delay behind a character, which the tags before it have set, or a pause.
  rcases List.mem_append.mp hmem with hbeat | hpause
  · have hdelay : seconds = (Tempo.upTo speed (Tag.lex text) position).speed := by
      split at hbeat
      · cases hbeat
      · have hdelayed : (Tempo.upTo speed (Tag.lex text) position).speed.isPositive ∧
            seconds = (Tempo.upTo speed (Tag.lex text) position).speed := by
          simpa [beat] using hbeat
        exact hdelayed.2
    exact hdelay ▸ htempo.speed
  · simp only [List.mem_map, List.mem_filterMap, List.mem_filter, Entry.asked.injEq,
      exists_eq_right] at hpause
    obtain ⟨t, ⟨ht, -⟩, hpause⟩ := hpause
    unfold Tag.pause? at hpause
    split at hpause
    · exact htags t ht seconds (Option.filter_eq_some_iff.mp hpause).1
    · cases hpause

end Text

theorem Handler.isFinite_of_seconds? {parameter : String} {s : Single}
    (h : seconds? parameter = some s) : s.isFinite :=
  (Option.filter_eq_some_iff.mp h).2

theorem Number.Binary.isPositive_of_isFinite {f : Format} {x : Binary f} (hfinite : x.isFinite)
    (h : ¬x.isNonPositive) : x.isPositive := by
  simp only [isFinite, decide_eq_true_eq] at hfinite
  simp only [isNonPositive, isNaN, Bool.and_eq_true, Bool.not_eq_true', decide_eq_false_iff_not,
    Bool.or_eq_true, beq_iff_eq, not_and, not_or, Bool.not_eq_true] at h
  obtain ⟨hsign, hnonzero⟩ := h (by omega)
  simp only [isPositive, isNaN, hsign, Bool.not_false, Bool.true_and, Bool.and_eq_true,
    Bool.not_eq_true', decide_eq_true_eq, decide_eq_false_iff_not]
  omega

/-- A timer refuses a finite wait only if it has too many bits of seconds. -/
theorem Clock.too_long_of_refuses {s : Single} (hfinite : s.isFinite) (h : refuses s) :
    s.isPositive ∧ twoTo 64 * Format.single.one ≤ s.numerator := by
  unfold refuses timerAnswer at h
  by_cases hnone : s.isNonPositive
  · simp [hnone] at h
  · refine ⟨Binary.isPositive_of_isFinite hfinite hnone, ?_⟩
    by_contra hshort
    have hfits : (!s.isFinite || decide (twoTo 64 * Format.single.one ≤ s.numerator)) = false := by
      simp [hfinite, hshort]
    rw [if_neg hnone, hfits] at h
    by_cases hinstant : roundDiv (s.numerator * tenTo 9) Format.single.one = 0
    · simp [hinstant] at h
    · simp [hinstant] at h

/-- Only a tag can make a text overlong that starts with a second a character at most. -/
theorem Text.exists_tag_of_isOverlong {takes : Tag → Bool} {speed : Single} {text : String}
    (hfinite : speed.isFinite)
    (hspeed : speed.isPositive → speed.numerator ≤ Format.single.one)
    (h : isOverlong takes speed text) :
    ∃ t ∈ Tag.lex text, ∃ s, Handler.seconds? t.parameter = some s ∧
      twoTo 64 * Format.single.one ≤ s.numerator := by
  obtain ⟨entry, hentry, hrefused⟩ := List.any_eq_true.mp h
  by_contra hnone
  have hshort : ∀ t ∈ Tag.lex text, ∀ s, Handler.seconds? t.parameter = some s →
      Clock.refuses s = false := by
    intro t ht s hs
    rw [Bool.eq_false_iff]
    intro hrefuses
    exact hnone ⟨t, ht, s, hs,
      (Clock.too_long_of_refuses (Handler.isFinite_of_seconds? hs) hrefuses).2⟩
  have hstart : Clock.refuses speed = false := by
    rw [Bool.eq_false_iff]
    intro hrefuses
    obtain ⟨hpositive, hlong⟩ := Clock.too_long_of_refuses hfinite hrefuses
    have hshort := hspeed hpositive
    have hsecond : Format.single.one < twoTo 64 * Format.single.one := by decide
    omega
  cases entry with
  | asked seconds =>
    have hkept : Clock.refuses seconds = false := of_asked_mem_pace hstart hshort hentry
    exact absurd hrefused (by simp [Entry.isRefused, hkept])
  | _ => cases hrefused

namespace Stage
variable {σ : Type}

/-- Whether a session that is started on this stage is to wait too long for a timer. -/
def isOverlong (st : Stage σ) (text : String) (speed : Option Single) : Bool :=
  Text.isOverlong (st.registry.takes st.player.config.unknownTags)
    (speed.getD st.player.config.defaultSpeed) text

/-- How a session has ended by itself, and what has come of it. -/
structure Ended (id : Nat) (callback : Bool) (outcome : Outcome) (st : Stage σ) : Prop where
  jobs : st.jobs = [⟨id, .ended outcome, false⟩]
  state : st.player.state = match outcome with
    | .completed => .completed
    | .cancelled => .cancelled
  callback : st.journal.toList.count (.completed id) =
    if callback ∧ outcome = .completed then 1 else 0

theorem Plays.ended {past : List Block} {b : Block} {t : Ticket} {outcome : Outcome} {st : Stage σ}
    (h : Plays past b t ⟨t.id, .ended outcome, false⟩ st)
    (htells : (Status.ended outcome).Tells false st.player.state) :
    Ended t.id b.callback outcome st := by
  have hcount := h.records.count_ran (List.mem_append_right past List.mem_cons_self)
  have hending := h.fits
  refine ⟨h.jobs, ?_, ?_⟩
  · cases outcome <;> exact htells
  · rw [count_completed, h.id]
    refine hcount.trans ?_
    cases outcome with
    | completed =>
      simp [Block.isCompleted, show b.ending = some .completed from hending, Ending.isCompletion]
    | cancelled =>
      simp [Block.isCompleted, show b.ending = some .cancelled from hending, Ending.isCompletion]

theorem unattended_turn [TimeBase σ] {ok : σ → Prop} {st : Stage σ} (through : Bool)
    (hgoes : st.turnGoesOn 0) : Unattended ok st 1 (st.turn through 0) := by
  have hturn : Unattended ok st (0 + (st.turnGoesOn 0).toNat) (st.turn through 0) :=
    .turn .begin through 0
  rwa [hgoes] at hturn

theorem Unattended.attends [TimeBase σ] {ok : σ → Prop} {t : Ticket} {status : Status}
    {cancelled : Bool} {n : Nat} {start st : Stage σ} (hattends : Attends t status cancelled start)
    (h : Unattended ok start n st) : ∃ status', Attends t status' cancelled st := by
  induction h with
  | begin => exact ⟨status, hattends⟩
  | turn _ through index ih =>
    obtain ⟨status', h'⟩ := ih
    exact h'.turn through index
  | clock _ _ ih =>
    obtain ⟨status', h'⟩ := ih
    exact ⟨status', { h' with }⟩
  | wait _ ih =>
    obtain ⟨status', h'⟩ := ih
    exact ⟨status', { h' with }⟩

end Stage

namespace Stage
variable {id n : Nat} {status : Status} {start st : Stage Clock}

/-- A session that is left alone over a timer. Until a wait of it is refused nothing disturbs it,
and then it is over. -/
inductive Fate (id : Nat) (status : Status) (start : Stage Clock) (n : Nat) (st : Stage Clock) :
    Prop
  | lasts {status' : Status} (h : Undisturbed start n st) (hjobs : st.jobs = [⟨id, status', false⟩])
    (hregistry : st.registry = start.registry) (htimer : st.clock.IsTimer)
    (hfrail : status'.Frail start.registry)
    (hrefused : (status.acts start.registry).any Act.isRefused =
      (status'.acts start.registry).any Act.isRefused)
  | refused (hjobs : st.jobs = [⟨id, .ended .cancelled, false⟩])
    (hrefused : (status.acts start.registry).any Act.isRefused)
    (hbound : n ≤ status.span start.registry + 1)

theorem Fate.turn (hstart : start.jobs = [⟨id, status, false⟩]) (h : Fate id status start n st)
    (through : Bool) (index : Nat) :
    Fate id status start (n + (st.turnGoesOn index).toNat) (st.turn through index) := by
  cases h with
  -- Nothing is left to do, and the turn does not count.
  | refused hjobs hrefused hbound =>
    have hover : ∀ j ∈ st.jobs, j.status.isOver := by simp [hjobs, Status.isOver]
    have hstays : st.turnGoesOn index = false := by
      rw [turnGoesOn, hjobs]
      cases index <;> rfl
    rw [turn_of_over hover, hstays]
    exact .refused hjobs hrefused hbound
  | @lasts status' h hjobs hregistry htimer hfrail hrefused =>
    cases index with
    | succ index =>
      have hstays : st.turnGoesOn (index + 1) = false := by simp [turnGoesOn, hjobs]
      rw [turn_lone_succ hjobs, hstays]
      exact .lasts h hjobs hregistry htimer hfrail hrefused
    | zero =>
      have hclock : st.turnFails through 0 = resumeFails through status' st := by
        simp [turnFails, hjobs]
      have hkeeps := keeps_resume ⟨false, through⟩ status' st
      rw [← hregistry] at hfrail
      obtain ⟨htimer', hfrail', hrefused', hends⟩ :=
        (resumes_free through status' st).fares hfrail htimer
      rw [hregistry] at hfrail' hrefused'
      have hjobs' := congrArg Stage.jobs (turn_lone hjobs through)
      -- The turn in which a wait is refused is the last that counts.
      by_cases hfails : resumeFails through status' st
      · obtain ⟨status'', hcourse⟩ := h.onCourse hstart
        have hspan := hcourse.span
        rw [hends hfails] at hjobs'
        refine .refused hjobs' ?_ ?_
        · rw [hrefused, hrefused', hfails]
          rfl
        · have := Bool.toNat_le (st.turnGoesOn 0)
          omega
      · rw [Bool.not_eq_true] at hfails
        have hturn := h.turn through 0 (hclock.trans hfails)
        rw [hfails] at hrefused'
        refine .lasts hturn hjobs' ?_ ?_ hfrail' (hrefused.trans hrefused')
        · rw [turn_lone hjobs]
          exact hkeeps.registry.trans hregistry
        · rw [turn_lone hjobs]
          exact htimer'

theorem Unattended.fate (hstart : start.jobs = [⟨id, status, false⟩])
    (hfrail : status.Frail start.registry) (htimer : start.clock.IsTimer)
    (h : Unattended Clock.IsTimer start n st) : Fate id status start n st := by
  induction h with
  | begin => exact .lasts .begin hstart rfl htimer hfrail rfl
  | turn _ through index ih => exact ih.turn hstart through index
  | clock _ hclock ih =>
    cases ih with
    | lasts h hjobs hregistry _ hfrail hrefused =>
      exact .lasts (h.clock _) hjobs hregistry hclock hfrail hrefused
    | refused hjobs hrefused hbound => exact .refused hjobs hrefused hbound
  | wait _ ih =>
    cases ih with
    | lasts h hjobs hregistry htimer hfrail hrefused =>
      exact .lasts h.wait hjobs hregistry htimer hfrail hrefused
    | refused hjobs hrefused hbound => exact .refused hjobs hrefused hbound

/-- If it was to complete, it does, unless it was to wait for what is refused. -/
theorem Fate.ends (hstart : start.jobs = [⟨id, status, false⟩])
    (hlast : (status.acts start.registry).getLast? = some (.finished (some .completed)))
    (h : Fate id status start n st) :
    n ≤ status.span start.registry + 1 ∧ ∃ status', st.jobs = [⟨id, status', false⟩] ∧
      (status'.isOver → status' = .ended
        (if (status.acts start.registry).any Act.isRefused then .cancelled else .completed)) := by
  cases h with
  | @lasts status' h hjobs _ _ _ hrefused =>
    obtain ⟨hspan, now, hnow, -, hcompletes⟩ := h.goes hstart hlast
    obtain rfl : now = status' := by simpa [hjobs] using hnow.symm
    refine ⟨Nat.le_succ_of_le hspan, now, hjobs, fun hover => ?_⟩
    have hends := hcompletes hover
    rw [hrefused, hends]
    simp [Status.acts, Act.isRefused]
  | refused hjobs hrefused hbound =>
    refine ⟨hbound, _, hjobs, fun _ => ?_⟩
    rw [if_pos hrefused]

/-- Whoever waits only for time to pass goes on when it has. -/
theorem goesOn_of_isOpen (hopen : st.clock.isOpen) (h : ¬status.isOver) : goesOn status st := by
  cases status with
  | ready s => rfl
  | asleep seconds next =>
    have helapsed : TimeBase.again st.clock seconds = (.elapsed, st.clock) := if_pos hopen
    rw [goesOn, helapsed]
  | ended outcome => exact absurd rfl h
  | crashed => exact absurd rfl h

variable {past : List Block} {b : Block} {t : Ticket} {begun after : Stage Clock}

/-- What becomes of a session that is to complete, if it is left alone over a timer. -/
theorem Plays.concludes (hplays : Plays past b t ⟨t.id, status, false⟩ begun)
    (htells : status.Tells false begun.player.state) (hfrail : status.Frail begun.registry)
    (hlast : (status.acts begun.registry).getLast? = some (.finished (some .completed)))
    (htimer : begun.clock.IsTimer) (hrun : begun.Unattended Clock.IsTimer n after) :
    n ≤ status.span begun.registry + 1 ∧ ∃ b' status', b.Continues b' ∧
      Plays past b' t ⟨t.id, status', false⟩ after ∧ status'.Tells false after.player.state ∧
      (status'.isOver → status' = .ended
        (if (status.acts begun.registry).any Act.isRefused then .cancelled else .completed)) := by
  have hattends : Attends t status false begun := ⟨hplays.jobs, htells⟩
  obtain ⟨b', j', hb', hplays', -⟩ := hrun.plays hplays
  obtain ⟨status', hattends'⟩ := hrun.attends hattends
  obtain rfl : j' = ⟨t.id, status', false⟩ :=
    List.singleton_inj.mp (hplays'.jobs.symm.trans hattends'.jobs)
  obtain ⟨hbound, now, hnow, hends⟩ := (hrun.fate hplays.jobs hfrail htimer).ends hplays.jobs hlast
  obtain rfl : now = status' := by simpa [hattends'.jobs] using hnow.symm
  exact ⟨hbound, b', now, hb', hplays', hattends'.tells, hends⟩

/-- It goes on whenever time has passed, until it has ended. -/
theorem Plays.lasts (hplays : Plays past b t ⟨t.id, status, false⟩ begun)
    (htells : status.Tells false begun.player.state) (hfrail : status.Frail begun.registry)
    (hlast : (status.acts begun.registry).getLast? = some (.finished (some .completed)))
    (htimer : begun.clock.IsTimer) (hrun : begun.Unattended Clock.IsTimer n after) :
    n ≤ status.span begun.registry + 1 ∧ ∃ status', after.jobs = [⟨t.id, status', false⟩] ∧
      (¬status'.isOver → ({ after with
        clock := { after.clock with isOpen := true } } : Stage Clock).turnGoesOn 0) ∧
      (status'.isOver → after.Ended t.id b.callback
        (if (status.acts begun.registry).any Act.isRefused then .cancelled else .completed)) := by
  obtain ⟨hbound, b', status', hb', hplays', htells', hends⟩ :=
    hplays.concludes htells hfrail hlast htimer hrun
  refine ⟨hbound, status', hplays'.jobs, fun hlive => ?_, fun hover => ?_⟩
  · rw [turnGoesOn, hplays'.jobs]
    exact goesOn_of_isOpen rfl hlive
  · obtain rfl := hends hover
    rw [← hb'.callback]
    exact hplays'.ended htells'

/-- A session over the built-in handlers before its first turn. -/
theorem acts_opening {σ : Type} {hub : HubRef} (st : Stage σ)
    (hbuiltin : st.registry = .withBuiltins hub) (text : String) (speed : Option Single) :
    (st.opening text speed).Frail st.registry ∧
      ((st.opening text speed).acts st.registry).any Act.isRefused = st.isOverlong text speed ∧
      ((st.opening text speed).acts st.registry).getLast? =
        some (.finished (some .completed)) := by
  obtain ⟨hbeats, hlast⟩ := beats_opening st hbuiltin text speed
  refine ⟨?_, ?_, hlast⟩
  · rw [hbuiltin]
    exact Session.frail_reveal (Registry.frail_withBuiltins hub) ..
  · rw [← Act.any_isRefused_beats]
    exact congrArg (List.any · Entry.isRefused) hbeats

end Stage

/-- A session over the built-in handlers which its owner leaves alone, over a timer. It comes to its
end, for it goes on whenever time has passed, and only so often; and it completes, and runs its
callback, unless the course of its text has a wait that is too long for the timer. Then it is
cancelled there, without its callback. A text that starts with a second a character at most has such
a wait only if one of its tags has a parameter of too many bits of seconds. -/
theorem Stage.History.completes_unless_overlong {w : Surroundings Clock} {registry : Registry}
    {clock : Clock} {config : Config} {hub hub' : HubRef} {start st begun : Stage Clock}
    {calls : List Command} {text : String} {speed : Option Single} {callback : Bool} {id : Nat}
    (hregistry : registry.Sound) (hw : ∀ r, w.registry r → r.Sound)
    (hnew : Stage.new? registry clock config hub = some start) (h : History w start calls st)
    (hs : Request.Steps w (.start text speed callback, st) (.done id, begun))
    (hbuiltin : begun.registry = .withBuiltins hub') (htimer : begun.clock.IsTimer) :
    (∃ bound, ∀ n after, begun.Unattended Clock.IsTimer n after → n ≤ bound ∧
      ∃ status, after.jobs = [⟨id, status, false⟩] ∧
        (¬status.isOver → ({ after with
          clock := { after.clock with isOpen := true } } : Stage Clock).turnGoesOn 0) ∧
        (status.isOver → after.Ended id callback
          (if begun.isOverlong text speed then .cancelled else .completed))) ∧
    ∀ seconds, seconds = speed.getD begun.player.config.defaultSpeed → seconds.isFinite →
      (seconds.isPositive → seconds.numerator ≤ Format.single.one) →
        begun.isOverlong text speed →
          ∃ t ∈ Tag.lex text, ∃ s, Handler.seconds? t.parameter = some s ∧
            twoTo 64 * Format.single.one ≤ s.numerator := by
  obtain ⟨before, past, b, hjobs, rfl, rfl, hcallback, hplays⟩ :=
    h.plays_of_start hregistry hw hnew hs
  obtain ⟨hfrail, hrefuses, hlast⟩ := acts_opening before hbuiltin text speed
  have htells := (attends_launch hjobs text speed callback).tells
  refine ⟨⟨(before.opening text speed).span before.registry + 1, fun n after hrun => ?_⟩, ?_⟩
  · obtain ⟨hbound, status, hjobs', hlive, hends⟩ := hplays.lasts htells hfrail hlast htimer hrun
    refine ⟨hbound, status, hjobs', hlive, fun hover => ?_⟩
    have hwaits : ((before.opening text speed).acts
        (before.launch text speed callback).2.registry).any Act.isRefused = _ := hrefuses
    have hended := hends hover
    rw [hcallback, hwaits] at hended
    exact hended
  · rintro _ rfl hfinite hsecond hlong
    exact Text.exists_tag_of_isOverlong hfinite hsecond hlong

/-- A pause that a timer can take. -/
theorem Stage.History.completes_of_pause :
    ∃ start begun : Stage Clock, Registry.Sound (.withBuiltins .own) ∧
      Stage.new? (.withBuiltins .own) { kind := .timer, isOpen := true } {} .own = some start ∧
      Request.Steps ⟨fun _ => True, Registry.Sound⟩ (.start "a[pause=1]b" none true, start)
        (.done 1, begun) ∧
      begun.registry = .withBuiltins .own ∧ begun.clock.IsTimer ∧
      begun.Unattended Clock.IsTimer 1 (begun.turn true 0) ∧
      (begun.turn true 0).Ended 1 true .completed := by
  have hrun : ((Stage.new? (.withBuiltins .own) ({ kind := .timer, isOpen := true } : Clock) {}
      .own).bind fun start =>
        ((Request.start "a[pause=1]b" none true).run? start).map fun begun =>
          ((begun.1, begun.2.turnGoesOn 0, begun.2.clock), begun.2.isOverlong "a[pause=1]b" none,
            (begun.2.turn true 0).jobs.map (·.status.isOver))) =
      some ((1, true, { kind := .timer, isOpen := true }), false, [true]) := by
    decide +kernel
  simp only [Option.bind_eq_some_iff, Option.map_eq_some_iff, Prod.mk.injEq] at hrun
  obtain ⟨start, hnew, ⟨id, begun⟩, hbegun, ⟨rfl, hgoes, hclock⟩, hfits, hover⟩ := hrun
  have hsound := Registry.sound_withBuiltins .own
  have hsteps := Request.steps_of_run? ⟨fun _ => True, Registry.Sound⟩ hbegun
  have hregistry : begun.registry = .withBuiltins .own := registry_of_start hnew hbegun
  have htimer : begun.clock.IsTimer := by
    rw [hclock]
    exact ⟨rfl, rfl⟩
  have hrunning : begun.Unattended Clock.IsTimer 1 (begun.turn true 0) :=
    unattended_turn true hgoes
  obtain ⟨⟨bound, hbound⟩, -⟩ := History.completes_unless_overlong hsound (fun _ hr => hr) hnew
    .begin hsteps hregistry htimer
  obtain ⟨-, status, hjobs, -, hends⟩ := hbound 1 _ hrunning
  have hdone : status.isOver := by simpa [hjobs] using hover
  have hended := hends hdone
  rw [hfits] at hended
  exact ⟨start, begun, hsound, hnew, hsteps, hregistry, htimer, hrunning, hended⟩

/-- A pause that is a finite number of seconds, and too long for a timer: the session is cancelled,
and its callback does not run. -/
theorem Stage.History.cancelled_of_pause :
    ∃ (text : String) (start begun : Stage Clock),
      Stage.new? (.withBuiltins .own) { kind := .timer, isOpen := true } {} .own = some start ∧
      Request.Steps ⟨fun _ => True, Registry.Sound⟩ (.start text none true, start)
        (.done 1, begun) ∧
      begun.registry = .withBuiltins .own ∧ begun.clock.IsTimer ∧
      begun.player.config.defaultSpeed.isFinite ∧
      begun.player.config.defaultSpeed.numerator ≤ Format.single.one ∧
      begun.Unattended Clock.IsTimer 1 (begun.turn true 0) ∧
      (begun.turn true 0).player.state = .cancelled ∧
      Entry.completed 1 ∉ (begun.turn true 0).journal.toList := by
  have hrun : ((Stage.new? (.withBuiltins .own) ({ kind := .timer, isOpen := true } : Clock) {}
      .own).bind fun start =>
        ((Request.start "a[pause=1e30]b" none true).run? start).map fun begun =>
          ((begun.1, begun.2.turnGoesOn 0, begun.2.clock),
            begun.2.player.config.defaultSpeed.isFinite &&
              decide (begun.2.player.config.defaultSpeed.numerator ≤ Format.single.one),
            (begun.2.turn true 0).player.state,
            decide (Entry.completed 1 ∉ (begun.2.turn true 0).journal.toList))) =
      some ((1, true, { kind := .timer, isOpen := true }), true, .cancelled, true) := by
    decide +kernel
  simp only [Option.bind_eq_some_iff, Option.map_eq_some_iff, Prod.mk.injEq, Bool.and_eq_true,
    decide_eq_true_eq] at hrun
  obtain ⟨start, hnew, ⟨id, begun⟩, hbegun, ⟨rfl, hgoes, hclock⟩, ⟨hfinite, hsecond⟩, hstate,
    hnever⟩ := hrun
  have htimer : begun.clock.IsTimer := by
    rw [hclock]
    exact ⟨rfl, rfl⟩
  have hrunning : begun.Unattended Clock.IsTimer 1 (begun.turn true 0) :=
    unattended_turn true hgoes
  exact ⟨_, start, begun, hnew, Request.steps_of_run? _ hbegun, registry_of_start hnew hbegun,
    htimer, hfinite, hsecond, hrunning, hstate, hnever⟩

end TextReveal
