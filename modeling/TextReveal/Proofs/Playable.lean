import TextReveal.Config.Reader
import TextReveal.Proofs.Concluding
import TextReveal.Proofs.Consulting
import TextReveal.Proofs.Isolation
/-!
Which configurations can be played. A player needs a channel for its events, and its sessions a
speed that the clock can wait for; over a text without tags they need nothing else.
-/
namespace TextReveal
open Number

namespace Session
variable {names : List String} {r r' : Registry}

/-- What a session does depends on the handlers for its names alone. -/
theorem acts_congr {s : Session} (hs : s.Within names) (h : r.AgreeOn names r') :
    s.acts r = s.acts r' := by
  induction s with
  | ended outcome => rfl
  | crashed => rfl
  | perform e next ih => exact congrArg (Act.did e :: ·) (ih hs)
  | resolve name next ih =>
    rw [acts, acts, h name hs.1]
    exact ih _ (hs.2 _)
  | check next ih => exact congrArg (Act.looked :: ·) (ih false (hs false))
  | yield next ih => exact congrArg (Act.yielded :: ·) (ih hs)
  | breathe next ih => exact ih hs
  | sleep seconds next ih => exact congrArg (Act.asked seconds :: ·) (ih .elapsed (hs .elapsed))

theorem Frail.congr {s : Session} (hs : s.Within names) (h : r.AgreeOn names r')
    (hfrail : s.Frail r) : s.Frail r' := by
  induction s with
  | ended outcome => trivial
  | crashed => trivial
  | perform e next ih => exact ih hs hfrail
  | resolve name next ih =>
    rw [Frail, h name hs.1] at hfrail
    exact ih _ (hs.2 _) hfrail
  | check next ih => exact ih false (hs false) hfrail
  | yield next ih => exact ih hs hfrail
  | breathe next ih => exact ih hs hfrail
  | sleep seconds next ih => exact ⟨hfrail.1, ih .elapsed (hs .elapsed) hfrail.2⟩

end Session

/-- What a timer refuses, a number of seconds or not. -/
theorem Clock.refuses_iff {s : Single} : refuses s ↔
    ¬s.isNonPositive ∧ (s.isFinite → twoTo 64 * Format.single.one ≤ s.numerator) := by
  unfold refuses timerAnswer
  by_cases hnone : s.isNonPositive
  · simp [hnone]
  · by_cases hfinite : s.isFinite
    · by_cases hlong : twoTo 64 * Format.single.one ≤ s.numerator
      · simp [hnone, hlong]
      · by_cases hinstant : roundDiv (s.numerator * tenTo 9) Format.single.one = 0
        · simp [hnone, hfinite, hlong, hinstant]
        · simp [hnone, hfinite, hlong, hinstant]
    · simp [hnone, hfinite]

/-- Whether a timer can wait behind every character at this speed. -/
def Clock.keepsPace (speed : Single) : Bool :=
  !speed.isPositive || speed.isFinite && decide (speed.numerator < twoTo 64 * Format.single.one)

theorem Clock.keepsPace_eq (speed : Single) :
    keepsPace speed = !(speed.isPositive && refuses speed) := by
  by_cases h : speed.isPositive
  · have hpositive : ¬speed.isNonPositive := by
      simp only [Binary.isPositive, Bool.and_eq_true, Bool.not_eq_true', decide_eq_true_eq] at h
      simp [Binary.isNonPositive, h.1.1, Nat.pos_iff_ne_zero.mp h.1.2]
    rw [Bool.eq_iff_iff, keepsPace, h, Bool.not_true, Bool.false_or, Bool.true_and,
      Bool.not_eq_true', ← Bool.not_eq_true, refuses_iff]
    simp [hpositive]
  · simp [keepsPace, h]

/-- A text without tags waits for nothing but its characters. -/
theorem Text.isOverlong_of_plain {text : String} (hplain : Tag.lex text = [])
    (takes : Tag → Bool) (speed : Single) :
    isOverlong takes speed text = (decide (text ≠ "") && !Clock.keepsPace speed) := by
  have hbeats (at' : Char × Nat) : (beats takes speed [] at').any Entry.isRefused =
      !Clock.keepsPace speed := by
    show (beat speed at'.1 at'.2 ++ []).any _ = _
    rw [List.append_nil, beat, Clock.keepsPace_eq, Bool.not_not]
    by_cases h : speed.isPositive <;> simp [h, Entry.isRefused]
  rw [isOverlong, pace, hplain, List.any_flatMap]
  simp only [hbeats]
  cases htext : text.toList with
  | nil =>
    obtain rfl : text = "" := String.toList_injective htext
    rfl
  | cons c rest =>
    have hne : text ≠ "" := by
      rintro rfl
      cases htext
    rw [placed, List.any_cons, decide_eq_true hne, Bool.true_and]
    cases Clock.keepsPace speed <;> simp

/-- Nobody is needed for a text without tags. -/
theorem Stage.acts_opening_of_plain {σ : Type} (st : Stage σ) {text : String}
    (hplain : Tag.lex text = []) (speed : Option Single) :
    (st.opening text speed).Frail st.registry ∧
    ((st.opening text speed).acts st.registry).any Act.isRefused =
      (decide (text ≠ "") && !Clock.keepsPace (speed.getD st.player.config.defaultSpeed)) ∧
    ((st.opening text speed).acts st.registry).getLast? = some (.finished (some .completed)) := by
  have hwithin : ((st.opening text speed).Within []) :=
    Session.within_start (by simp [hplain]) _
  have hagree : (Registry.withBuiltins .own).AgreeOn [] st.registry := by simp [Registry.AgreeOn]
  have hacts : (st.opening text speed).acts st.registry =
      (st.opening text speed).acts (.withBuiltins .own) :=
    (Session.acts_congr hwithin hagree).symm
  rw [hacts]
  refine ⟨?_, ?_, Session.getLast?_acts_start ..⟩
  · exact Session.Frail.congr hwithin hagree
      (Session.frail_reveal (Registry.frail_withBuiltins .own) ..)
  · rw [← Act.any_isRefused_beats, ← Text.isOverlong_of_plain hplain
      ((Registry.withBuiltins .own).takes st.player.config.unknownTags)]
    exact congrArg (List.any · Entry.isRefused) (Session.beats_start ..)

theorem Channel.isSome_ofCapacity? {n : Nat} :
    (ofCapacity? n).isSome ↔ 0 < n ∧ n ≤ largestCapacity := by
  unfold ofCapacity?
  split <;> simp <;> omega

/-- A player can be had of a configuration exactly if there is a channel for as many events as it
asks for. Over a text without tags any session that is started at the default speed and that its
owner leaves alone then comes to its end over a timer, and completes, and runs its callback, unless
the text has characters and the timer cannot wait behind them at that speed. -/
theorem Config.plays_plain_texts (registry : Registry) (clock : Clock) (config : Config)
    (hub : HubRef) :
    ((Stage.new? registry clock config hub).isSome ↔
      config.eventCapacity ≤ Channel.largestCapacity) ∧
    ∀ (w : Surroundings Clock) (start st begun : Stage Clock) (calls : List Command)
      (text : String) (callback : Bool) (id : Nat), registry.Sound →
      (∀ r, w.registry r → r.Sound) → Stage.new? registry clock config hub = some start →
      Stage.History w start calls st → Tag.lex text = [] →
      Request.Steps w (.start text none callback, st) (.done id, begun) → begun.clock.IsTimer →
      ∃ bound, ∀ n after, begun.Unattended Clock.IsTimer n after → n ≤ bound ∧
        ∃ status, after.jobs = [⟨id, status, false⟩] ∧
          (¬status.isOver → ({ after with
            clock := { after.clock with isOpen := true } } : Stage Clock).turnGoesOn 0) ∧
          (status.isOver → after.Ended id callback
            (if text = "" ∨ Clock.keepsPace config.defaultSpeed then .completed
              else .cancelled)) := by
  refine ⟨?_, ?_⟩
  · have hsmall : 1 ≤ Channel.largestCapacity := by decide
    rw [Stage.new?, Option.isSome_map, channel?, Channel.isSome_ofCapacity?]
    omega
  · intro w start st begun calls text callback id hsound hw hnew h hplain hs htimer
    have hstable : Stage.Stable (Stage.Belongs config hub : Stage Clock → Prop) :=
      Stage.stable_belongs config hub
    have hconfig := (hstable.steps (hstable.history (Stage.belongs_of_new? hnew) h) hs).config
    obtain ⟨before, past, b, hjobs, rfl, rfl, hcallback, hplays⟩ :=
      h.plays_of_start hsound hw hnew hs
    obtain ⟨hfrail, hrefused, hlast⟩ := Stage.acts_opening_of_plain before hplain none
    have htells := (Stage.attends_launch hjobs text none callback).tells
    refine ⟨(before.opening text none).span before.registry + 1, fun n after hrun => ?_⟩
    obtain ⟨hbound, status, hjobs', hlive, hends⟩ :=
      hplays.lasts htells hfrail hlast htimer hrun
    refine ⟨hbound, status, hjobs', hlive, fun hover => ?_⟩
    have hspeed : Option.getD none before.player.config.defaultSpeed = config.defaultSpeed :=
      congrArg defaultSpeed hconfig
    have hwaits : ((before.opening text none).acts
        (before.launch text none callback).2.registry).any Act.isRefused = _ := hrefused
    have hended := hends hover
    rw [hcallback, hwaits, hspeed] at hended
    by_cases htext : text = "" <;> cases hpace : Clock.keepsPace config.defaultSpeed <;>
      simpa [htext, hpace] using hended

/-- At the speed of a configuration that says nothing. -/
theorem Config.plays_two_letters :
    ∃ start begun : Stage Clock, Config.read "\x7b\x7d" = .ok {} ∧
      Stage.new? (.withBuiltins .own) { kind := .timer, isOpen := true } {} .own = some start ∧
      Request.Steps ⟨fun _ => True, Registry.Sound⟩ (.start "ab" none true, start)
        (.done 1, begun) ∧
      begun.Unattended Clock.IsTimer 1 (begun.turn true 0) ∧
      (begun.turn true 0).Ended 1 true .completed := by
  have hrun : ((Stage.new? (.withBuiltins .own) ({ kind := .timer, isOpen := true } : Clock) {}
      .own).bind fun start => ((Request.start "ab" none true).run? start).map fun begun =>
        ((begun.1, begun.2.turnGoesOn 0, begun.2.clock),
          (begun.2.turn true 0).jobs.map (·.status.isOver))) =
      some ((1, true, { kind := .timer, isOpen := true }), [true]) := by
    decide +kernel
  simp only [Option.bind_eq_some_iff, Option.map_eq_some_iff, Prod.mk.injEq] at hrun
  obtain ⟨start, hnew, ⟨id, begun⟩, hbegun, ⟨rfl, hgoes, hclock⟩, hover⟩ := hrun
  have hsteps := Request.steps_of_run? ⟨fun _ => True, Registry.Sound⟩ hbegun
  have htimer : begun.clock.IsTimer := by
    rw [hclock]
    exact ⟨rfl, rfl⟩
  have hrunning : begun.Unattended Clock.IsTimer 1 (begun.turn true 0) :=
    Stage.unattended_turn true hgoes
  obtain ⟨-, hplays⟩ := Config.plays_plain_texts (.withBuiltins .own)
    { kind := .timer, isOpen := true } {} .own
  obtain ⟨bound, hbound⟩ := hplays _ start start begun [] "ab" true 1
    (Registry.sound_withBuiltins .own) (fun _ hr => hr) hnew .begin (by decide +kernel) hsteps htimer
  obtain ⟨-, status, hjobs, -, hends⟩ := hbound 1 _ hrunning
  have hended := hends (by simpa [hjobs] using hover)
  have hpaced : "ab" = "" ∨ Clock.keepsPace (defaultSpeed {}) := by decide
  rw [if_pos hpaced] at hended
  exact ⟨start, begun, by decide, hnew, hsteps, hrunning, hended⟩

/-- Configurations that are accepted and cannot be played: there is no channel for so many events,
and no timer waits for a speed that is too large for its format. -/
theorem Config.not_plays_plain_texts :
    (∃ json config, Config.read json = .ok config ∧ ∀ (registry : Registry) (clock : Clock)
      (hub : HubRef), Stage.new? registry clock config hub = none) ∧
    ∃ (json : String) (config : Config) (start begun : Stage Clock),
      Config.read json = .ok config ∧ Tag.lex "a" = [] ∧
      Stage.new? (.withBuiltins .own) { kind := .timer, isOpen := true } config .own =
        some start ∧
      Request.Steps ⟨fun _ => True, Registry.Sound⟩ (.start "a" none true, start)
        (.done 1, begun) ∧
      begun.clock.IsTimer ∧ begun.Unattended Clock.IsTimer 1 (begun.turn true 0) ∧
      (begun.turn true 0).player.state = .cancelled ∧
      Entry.completed 1 ∉ (begun.turn true 0).journal.toList := by
  refine ⟨⟨"\x7b\"event_capacity\":18446744073709551615\x7d",
    { eventCapacity := twoTo 64 - 1 }, by decide +kernel, fun registry clock hub => ?_⟩, ?_⟩
  · have hnone : channel? { eventCapacity := twoTo 64 - 1 } = none := by decide
    rw [Stage.new?, hnone]
    rfl
  · have hrun : ((Stage.new? (.withBuiltins .own) ({ kind := .timer, isOpen := true } : Clock)
        { defaultSpeed := Binary.infinity false } .own).bind fun start =>
          ((Request.start "a" none true).run? start).map fun begun =>
            ((begun.1, begun.2.turnGoesOn 0, begun.2.clock), (begun.2.turn true 0).player.state,
              decide (Entry.completed 1 ∉ (begun.2.turn true 0).journal.toList))) =
        some ((1, true, { kind := .timer, isOpen := true }), .cancelled, true) := by
      decide +kernel
    simp only [Option.bind_eq_some_iff, Option.map_eq_some_iff, Prod.mk.injEq,
      decide_eq_true_eq] at hrun
    obtain ⟨start, hnew, ⟨id, begun⟩, hbegun, ⟨rfl, hgoes, hclock⟩, hstate, hnever⟩ := hrun
    have htimer : begun.clock.IsTimer := by
      rw [hclock]
      exact ⟨rfl, rfl⟩
    exact ⟨"\x7b\"default_speed\":1e39\x7d", _, start, begun, by decide +kernel, by decide +kernel,
      hnew, Request.steps_of_run? _ hbegun, htimer, Stage.unattended_turn true hgoes, hstate, hnever⟩

end TextReveal
