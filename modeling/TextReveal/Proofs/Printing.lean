import TextReveal.Proofs.Concluding
import TextReveal.Proofs.Inserting
import TextReveal.Terminal
/-!
What the terminal program writes. Frame by frame it writes only what has been added to the display,
or starts a new line, so that a page that is cleared away stays on a line of its own.
-/
namespace TextReveal
open Number

namespace Terminal

theorem rest?_append (shown more : List Char) : rest? shown (shown ++ more) = some more := by
  induction shown with
  | nil => rfl
  | cons c shown ih => rw [List.cons_append, rest?, if_pos rfl, ih]

theorem append_of_rest? {shown text rest : List Char} (h : rest? shown text = some rest) :
    text = shown ++ rest := by
  induction shown generalizing text with
  | nil => cases h; rfl
  | cons s shown ih =>
    cases text with
    | nil => cases h
    | cons c text =>
      obtain ⟨rfl, hrest⟩ := Option.ite_none_right_eq_some.mp h
      rw [ih hrest, List.cons_append]

/-- What is added to the display is written as it is. -/
theorem delta_append (shown more : String) : delta shown (shown ++ more) = more := by
  rw [delta, String.toList_append, rest?_append]
  exact String.ofList_toList

/-- An empty display behind one that is not empty is a new line. -/
theorem delta_empty {shown : String} (h : shown ≠ "") : delta shown "" = "\n" := by
  rw [delta]
  cases hshown : shown.toList with
  | nil => exact absurd (String.toList_injective hshown) h
  | cons c rest => rfl

namespace Output

/-- Whole lines, or nothing at all, and behind them what the display shows. -/
def Shows (o : Output) : Prop :=
  ∃ before, (before = "" ∨ ∃ lines, before = lines ++ "\n") ∧ o.standard = before ++ o.shown

theorem Shows.add {o : Output} (h : o.Shows) (entry : Entry) : (o.add entry).Shows := by
  obtain ⟨before, hlines, hstandard⟩ := h
  cases entry with
  | frame text =>
    simp only [Shows, Output.add, hstandard, delta]
    cases hrest : rest? o.shown.toList text.toList with
    | some rest =>
      refine ⟨before, hlines, String.toList_injective ?_⟩
      simp [append_of_rest? hrest]
    | none =>
      refine ⟨before ++ o.shown ++ "\n", .inr ⟨_, rfl⟩, ?_⟩
      simp only [String.append_assoc]
  | _ => exact ⟨before, hlines, hstandard⟩

theorem Shows.foldl {o : Output} (h : o.Shows) (entries : List Entry) :
    (entries.foldl Output.add o).Shows := by
  induction entries generalizing o with
  | nil => exact h
  | cons entry entries ih => exact ih (h.add entry)

end Output

/-- What a frame makes of the text shown and the text written before. -/
def write (written : String × String) (text : String) : String × String :=
  (text, written.2 ++ delta written.1 text)

end Terminal

/-- The text that is shown. -/
def Entry.frame? : Entry → Option String
  | frame text => some text
  | _ => none

namespace Terminal

/-- Nothing but frames is written on standard output. -/
theorem foldl_add (entries : List Entry) (o : Output) :
    ((entries.foldl Output.add o).shown, (entries.foldl Output.add o).standard) =
      (entries.filterMap Entry.frame?).foldl write (o.shown, o.standard) := by
  induction entries generalizing o with
  | nil => rfl
  | cons entry entries ih =>
    rw [List.foldl_cons, ih]
    cases entry <;> rfl

/-- The program knows of a completion by the callback. -/
theorem completed_foldl_add (entries : List Entry) (o : Output) :
    (entries.foldl Output.add o).completed ↔ o.completed ∨ entries.filterMap Entry.ran? ≠ [] := by
  induction entries generalizing o with
  | nil => simp
  | cons entry entries ih =>
    rw [List.foldl_cons, ih]
    cases entry <;> simp [Output.add, Entry.ran?, List.filterMap_cons]

end Terminal

namespace Piece

/-- What the display shows behind these pieces. -/
def display (policy : UnknownTags) (shown : String) (pieces : List Piece) : String :=
  pieces.foldl (fun shown p => if p.isClear then "" else shown ++ p.shown policy) shown

/-- What the display shows just before each `clear` that finds something there. -/
def wiped (policy : UnknownTags) : String → List Piece → List String
  | _, [] => []
  | shown, p :: rest =>
    if p.isClear then (if shown = "" then [] else [shown]) ++ wiped policy "" rest
    else wiped policy (shown ++ p.shown policy) rest

theorem wiped_plain (policy : UnknownTags) (shown : String) (cs : List Char) (rest : List Piece) :
    wiped policy shown (cs.map plain ++ rest) = wiped policy (shown ++ String.ofList cs) rest ∧
      display policy shown (cs.map plain ++ rest) =
        display policy (shown ++ String.ofList cs) rest := by
  induction cs generalizing shown with
  | nil => simp
  | cons c cs ih =>
    have hnext : shown ++ (plain c).shown policy ++ String.ofList cs =
        shown ++ String.ofList (c :: cs) := by
      refine String.toList_injective ?_
      simp [Piece.shown]
    obtain ⟨hwiped, hdisplay⟩ := ih (shown ++ (plain c).shown policy)
    rw [hnext] at hwiped hdisplay
    exact ⟨hwiped, hdisplay⟩

/-- Whether the loop takes the pieces one by one or character by character, the same is shown. -/
theorem wiped_units (hub : HubRef) (policy : UnknownTags) {position : Nat} {pieces : List Piece}
    (h : Placed position pieces) (shown : String) :
    wiped policy shown (pieces.flatMap (units ((Registry.withBuiltins hub).takes policy))) =
        wiped policy shown pieces ∧
      display policy shown (pieces.flatMap (units ((Registry.withBuiltins hub).takes policy))) =
        display policy shown pieces := by
  induction h using Placed.along generalizing shown with
  | nil => exact ⟨rfl, rfl⟩
  | plain c rest _ _ ih => exact ⟨(ih _).1, (ih _).2⟩
  | tag t rest hlies _ _ ih =>
    rw [List.flatMap_cons, units]
    by_cases htakes : (Registry.withBuiltins hub).takes policy t
    · rw [if_pos htakes, List.singleton_append, wiped, wiped, (ih _).1, (ih _).1]
      exact ⟨rfl, (ih _).2⟩
    · -- Nobody handles the tag and it is not swallowed, so it is spelled out.
      obtain ⟨hnobody, rfl⟩ := Registry.not_takes_iff.mp htakes
      obtain ⟨-, hclear, hshown⟩ := Tag.idle_of_get?_eq_none hlies.normal hnobody .literal
      obtain ⟨hwiped, hdisplay⟩ := wiped_plain .literal shown t.fullText.toList
        (rest.flatMap (units ((Registry.withBuiltins hub).takes .literal)))
      have hspelled : (if (tag t).isClear then "" else shown ++ (tag t).shown .literal) =
          shown ++ String.ofList t.fullText.toList := by
        rw [hclear, hshown, String.ofList_toList]
        rfl
      rw [if_neg htakes, hwiped, hdisplay, (ih _).1, (ih _).2, wiped, hclear, hshown,
        String.ofList_toList]
      refine ⟨rfl, ?_⟩
      rw [display, display, List.foldl_cons, hspelled, String.ofList_toList]

end Piece

/-- One frame for each step of the loop. -/
theorem Stance.frames_course (hub : HubRef) (policy : UnknownTags) (s : Stance)
    (units : List Piece) :
    (Act.notes (acting hub policy (s.course policy units))).filterMap Entry.frame? =
      (s.course policy units).map fun step => (step.1.after policy step.2).shown := by
  induction units generalizing s with
  | nil => rfl
  | cons p units ih =>
    have hstep : (Act.notes (s.acts hub policy p)).filterMap Entry.frame? =
        [(s.after policy p).shown] := by
      rw [notes_acts]
      cases p with
      | plain c =>
        dsimp only
        split <;> rfl
      | tag t => simp [Entry.frame?, List.filterMap_map, Function.comp_def]
    rw [notes_acting_cons, List.filterMap_append, hstep, ih]
    rfl

/-- What one step writes: nothing is lost of a page that is wiped away. -/
theorem Stance.write_after (policy : UnknownTags) (s : Stance) (p : Piece) (before : String) :
    before ++ s.shown ++ Terminal.delta s.shown (s.after policy p).shown =
      before ++ String.join ((Piece.wiped policy s.shown [p]).map (· ++ "\n")) ++
        (s.after policy p).shown := by
  rw [show (s.after policy p).shown = if p.isClear then "" else s.shown ++ p.shown policy from rfl,
    Piece.wiped]
  by_cases hclear : p.isClear
  · rw [if_pos hclear, if_pos hclear]
    by_cases hshown : s.shown = ""
    · rw [if_pos hshown, hshown]
      rfl
    · rw [if_neg hshown, Terminal.delta_empty hshown]
      simp [Piece.wiped, String.join, String.append_assoc]
  · rw [if_neg hclear, if_neg hclear, Terminal.delta_append]
    simp [Piece.wiped, String.join, String.append_assoc]

/-- Behind whole lines and the display, the frames of the loop write what is wiped away, each page
on a line of its own, and then what the display shows in the end. -/
theorem Stance.write_course (policy : UnknownTags) (s : Stance) (before : String)
    (units : List Piece) :
    (((s.course policy units).map fun step => (step.1.after policy step.2).shown).foldl
        Terminal.write (s.shown, before ++ s.shown)).2 =
      before ++ String.join ((Piece.wiped policy s.shown units).map (· ++ "\n")) ++
        Piece.display policy s.shown units := by
  induction units generalizing s before with
  | nil => simp [course, Piece.wiped, Piece.display]
  | cons p units ih =>
    have hwiped : Piece.wiped policy s.shown (p :: units) =
        Piece.wiped policy s.shown [p] ++ Piece.wiped policy (s.after policy p).shown units := by
      simp only [Piece.wiped, Stance.after]
      split <;> simp
    rw [course, List.map_cons, List.foldl_cons, Terminal.write, write_after, ih, hwiped,
      List.map_append, String.join_append, ← String.append_assoc]
    rfl

/-- Frames are deeds. -/
theorem Stage.filterMap_frame?_deeds {σ : Type} (st : Stage σ) :
    st.deeds.filterMap Entry.frame? = st.journal.toList.filterMap Entry.frame? := by
  rw [deeds, List.filterMap_filter]
  refine List.filterMap_congr fun entry _ => ?_
  cases entry with
  | published event => cases event <;> rfl
  | _ => rfl

theorem Stage.display_finalText {σ : Type} {hub : HubRef} {st : Stage σ}
    (hregistry : st.registry = .withBuiltins hub) (text : String) :
    (st.finalText text).1 = Piece.display st.player.config.unknownTags "" (Piece.cut text) := by
  have hrender := renderInstant_eq_read (Registry.keepsToTags_withBuiltins hub)
    st.player.config.unknownTags text st.player.config.defaultSpeed
  simp only [Stage.finalText, Stage.render, hregistry, hrender]
  exact Instant.buffer_read (Piece.placed_cut text) _

/-- The stage while its owner waits for the session and all the time passes that is asked for. -/
def Stage.awaiting (st : Stage Clock) : Stage Clock :=
  { st with
    clock := { st.clock with isOpen := true }
    player := { st.player with active := none } }

theorem Stage.unattended_awaiting {st : Stage Clock} (htimer : st.clock.IsTimer) :
    ∃ n, st.Unattended Clock.IsTimer n (st.awaiting.turn true 0) := by
  have hopened : st.Unattended Clock.IsTimer 0
      { st with clock := { st.clock with isOpen := true } } := .clock .begin htimer
  exact ⟨_, hopened.wait.turn true 0⟩

/-- Waiting for a session over a timer is letting it alone for one turn, which ends it. -/
theorem Stage.journal_join {t : Ticket} {status : Status} {st : Stage Clock}
    (htimer : st.clock.IsTimer) (hjobs : st.jobs = [⟨t.id, status, false⟩])
    (hactive : st.player.active = some t) :
    (∀ j ∈ (st.awaiting.turn true 0).jobs, j.status.isOver) ∧
      st.join.2.journal = (st.awaiting.turn true 0).journal := by
  have hover : (resume ⟨false, true⟩ status st.awaiting).1.isOver :=
    (resumes_free true status st.awaiting).isOver rfl
  have hlone : st.awaiting.jobs = [⟨t.id, status, false⟩] := hjobs
  have hjob : st.awaiting.job? t.id = some ⟨t.id, status, false⟩ := by simp [job?, hlone]
  obtain ⟨outcome, houtcome⟩ : ∃ outcome,
      (resume ⟨false, true⟩ status st.awaiting).1.outcome? = some outcome := by
    generalize (resume ⟨false, true⟩ status st.awaiting).1 = last at hover
    cases last with
    | ended outcome => exact ⟨outcome, rfl⟩
    | crashed => exact ⟨.cancelled, rfl⟩
    | ready => cases hover
    | asleep => cases hover
  -- That it has an outcome after one turn is all that `finish?` waits for.
  have hfinish : st.awaiting.finish? t.id = some (outcome,
      (resume ⟨false, true⟩ status st.awaiting).2.removeJob t.id) := by
    rw [finish?_eq hjob, houtcome]
    rfl
  have hrun : Request.join.run?
      ({ st with clock := { st.clock with isOpen := true } } : Stage Clock) =
        some (some outcome, (resume ⟨false, true⟩ status st.awaiting).2.removeJob t.id) := by
    simp only [Request.join, Request.run?, hactive]
    rw [show ({ st with clock := _, player := _ } : Stage Clock) = st.awaiting from rfl, hfinish]
  rw [turn_lone hlone]
  refine ⟨by simpa using hover, ?_⟩
  have hpasses : decide (st.clock.kind = .timer) = true := decide_eq_true htimer.1
  simp only [Stage.join, if_pos htimer.1, hpasses, Bool.or_true, setClock]
  rw [hrun]
  rfl

theorem Stage.vacant_of_new? {σ : Type} {registry : Registry} {clock : σ} {config : Config}
    {hub : HubRef} {st : Stage σ} (hsound : registry.Sound)
    (h : Stage.new? registry clock config hub = some st) : Vacant [] st := by
  cases between_of_new? hsound h with
  | rests h => exact h
  | plays hblocks => simp at hblocks

namespace Terminal
variable {options : Options} {text : String} {st : Stage Clock}

/-- The stage of the program just before the session starts. -/
structure Prepares (options : Options) (before : Stage Clock) : Prop where
  registry : before.registry = .withBuiltins .common
  config : before.player.config = options.config
  timer : before.clock.IsTimer
  vacant : before.Vacant []
  journal : before.journal = #[]

theorem exists_prepares (h : opening options text = .ok st) :
    ∃ before : Stage Clock, Prepares options before ∧ st = (before.launch text none true).2 := by
  unfold opening at h
  dsimp only at h
  split at h
  · rename_i start hnew
    cases h
    have hvacant := Stage.vacant_of_new? (Registry.sound_withBuiltins .common) hnew
    refine ⟨start.listen.2, ?_, rfl⟩
    obtain ⟨channel, -, rfl⟩ := Option.map_eq_some_iff.mp hnew
    exact ⟨rfl, rfl, ⟨rfl, rfl⟩, { hvacant with }, rfl⟩
  · cases h

/-- What the session is to show, frame after frame. -/
theorem Prepares.frames_opening {before : Stage Clock} (h : Prepares options before)
    (text : String) :
    (Act.deeds ((before.opening text none).acts before.registry)).filterMap Entry.frame? =
      (before.course text none).map fun step =>
        (step.1.after options.config.unknownTags step.2).shown := by
  have hall : Act.deeds (Stance.acting .common before.player.config.unknownTags
      (before.course text none)) = Act.notes _ :=
    List.filter_eq_self.mpr fun _ => Stance.isDeed_of_mem_notes_acting
  rw [Stage.deeds_opening before h.registry text none, Stage.script, hall, ← h.config]
  exact Stance.frames_course ..

/-- Before its first turn there is one frame, and nothing on it. -/
theorem Prepares.frames_launch {before : Stage Clock} (h : Prepares options before)
    (text : String) :
    (before.launch text none true).2.journal.toList.filterMap Entry.frame? = [""] := by
  have hlaunched : (before.launch text none true).2.journal =
      (before.journal.push (.frame "")).push (.published (.started (before.started + 1))) := rfl
  rw [hlaunched, h.journal]
  rfl

/-- The program waits for its session, which ends in the one turn that this takes. -/
theorem Prepares.concludes {before : Stage Clock} (h : Prepares options before) (text : String) :
    let begun := (before.launch text none true).2
    (begun.join.2.journal.toList.filterMap Entry.ran? ≠ [] ↔ ¬begun.isOverlong text none) ∧
    (¬begun.isOverlong text none → begun.join.2.journal.toList.filterMap Entry.frame? =
      "" :: (before.course text none).map fun step =>
        (step.1.after options.config.unknownTags step.2).shown) := by
  intro begun
  obtain ⟨b, hcallback, hplays⟩ := h.vacant.plays_launch (by simp) text none true
  have htimer : begun.clock.IsTimer := h.timer
  obtain ⟨hfrail, hwaits, hlast⟩ := Stage.acts_opening before h.registry text none
  have hrefuses : ((before.opening text none).acts begun.registry).any Act.isRefused =
      begun.isOverlong text none := hwaits
  have htells := (Stage.attends_launch h.vacant.jobs text none true).tells
  obtain ⟨n, hrun⟩ := Stage.unattended_awaiting htimer
  obtain ⟨hover, hjournal⟩ := Stage.journal_join htimer hplays.jobs rfl
  obtain ⟨-, b', status, hb', hplays', -, hends⟩ :=
    hplays.concludes htells hfrail hlast htimer hrun
  have hstatus : status.isOver := by simpa [hplays'.jobs] using hover
  obtain rfl := hends hstatus
  rw [hrefuses] at hplays'
  rw [hjournal]
  refine ⟨?_, fun hfits => ?_⟩
  · have hran : (begun.awaiting.turn true 0).journal.toList.filterMap Entry.ran? = b'.ran :=
      hplays'.records.ran.trans (List.append_nil _)
    have hfits := hplays'.fits
    rw [hran, Block.ran, hb'.callback, hcallback, Bool.true_and, Block.isCompleted]
    by_cases hlong : begun.isOverlong text none
    · rw [if_pos hlong] at hfits
      rw [show b'.ending = some .cancelled from hfits]
      simp [hlong, Ending.isCompletion]
    · rw [if_neg hlong] at hfits
      rw [show b'.ending = some .completed from hfits]
      simp [hlong, Ending.isCompletion]
  · have hdeeds := Stage.Unattended.deeds_of_not_refused hplays.jobs hfrail htimer
      (hrefuses.trans (Bool.eq_false_iff.mpr hfits)) hrun hover
    rw [← Stage.filterMap_frame?_deeds, hdeeds, List.filterMap_append,
      Stage.filterMap_frame?_deeds, h.frames_launch]
    exact congrArg ("" :: ·) (h.frames_opening text)

/-- What the frames of a whole session write. -/
theorem Prepares.write_frames {before : Stage Clock} (h : Prepares options before)
    (text : String) :
    (("" :: (before.course text none).map fun step =>
      (step.1.after options.config.unknownTags step.2).shown).foldl write ("", "")).2 =
      String.join ((Piece.wiped options.config.unknownTags "" (Piece.cut text)).map (· ++ "\n")) ++
        Piece.display options.config.unknownTags "" (Piece.cut text) := by
  have hwritten := Stance.write_course options.config.unknownTags
    ⟨0, 0, ⟨options.config.defaultSpeed, []⟩, ""⟩ "" ((Piece.cut text).flatMap
      (Piece.units ((Registry.withBuiltins .common).takes options.config.unknownTags)))
  obtain ⟨hwiped, hdisplay⟩ :=
    Piece.wiped_units .common options.config.unknownTags (Piece.placed_cut text) ""
  rw [hwiped, hdisplay, String.empty_append] at hwritten
  rw [Stage.course, h.registry, h.config]
  exact hwritten

/-- The terminal program writes what its display shows. Behind every frame, whatever comes in
between, there stands that frame, and before it whole lines or nothing. A session completes unless
the text has it wait too long; then every page that a `clear` has wiped away stands on a line of its
own, the pages that were empty apart, and behind them the final text and the end of its line. -/
theorem prints (options : Options) (text : String) :
    (∀ (entries : List Entry) (shown : String), ∃ before,
      (before = "" ∨ ∃ lines, before = lines ++ "\n") ∧
      ((entries ++ [Entry.frame shown]).foldl Output.add {}).standard = before ++ shown) ∧
    ∀ st, opening options text = .ok st → ∃ o, play options text = .ok o ∧
      (o.completed ↔ ¬st.isOverlong text none) ∧
      (o.completed → o.standard =
        String.join ((Piece.wiped options.config.unknownTags "" (Piece.cut text)).map (· ++ "\n")) ++
          (st.finalText text).1 ++ "\n") := by
  refine ⟨fun entries shown => ?_, fun st hopening => ?_⟩
  · have hstart : Output.Shows {} := ⟨"", .inl rfl, rfl⟩
    obtain ⟨before, hlines, hstandard⟩ := hstart.foldl (entries ++ [Entry.frame shown])
    rw [List.foldl_concat] at hstandard ⊢
    exact ⟨before, hlines, hstandard⟩
  · obtain ⟨before, hprepares, rfl⟩ := exists_prepares hopening
    obtain ⟨hran, hframes⟩ := hprepares.concludes text
    simp only [play, hopening, Except.map, ← Array.foldl_toList]
    have hcompletes (o : Output) (ho : o.completed = false) :
        ((before.launch text none true).2.join.2.journal.toList.foldl Output.add o).completed ↔
          ¬(before.launch text none true).2.isOverlong text none := by
      rw [completed_foldl_add, ho, hran]
      simp
    refine ⟨_, rfl, hcompletes _ rfl, fun hcompleted => ?_⟩
    have hwritten := congrArg Prod.snd
      (foldl_add (before.launch text none true).2.join.2.journal.toList
        { error := String.join ((remarks text).map (· ++ "\n")) })
    rw [hframes ((hcompletes _ rfl).mp hcompleted), hprepares.write_frames] at hwritten
    have hregistry : (before.launch text none true).2.registry = .withBuiltins .common :=
      hprepares.registry
    have hconfig : (before.launch text none true).2.player.config = options.config :=
      hprepares.config
    rw [Stage.display_finalText hregistry, hconfig]
    exact congrArg (· ++ "\n") hwritten

/-- Two pages and an empty one between them are cleared away. -/
theorem prints_pages :
    ∃ st o, opening {} "ab[clear][clear]c[clear]é" = .ok st ∧
      play {} "ab[clear][clear]c[clear]é" = .ok o ∧ o.completed ∧ o.standard = "ab\nc\né\n" := by
  have hrun : (match opening {} "ab[clear][clear]c[clear]é" with
      | .ok st => some (st.isOverlong "ab[clear][clear]c[clear]é" none,
          (st.finalText "ab[clear][clear]c[clear]é").1)
      | .error _ => none) = some (false, "é") := by
    decide +kernel
  have hwiped : Piece.wiped (Options.config {}).unknownTags ""
      (Piece.cut "ab[clear][clear]c[clear]é") = ["ab", "c"] := by
    decide +kernel
  split at hrun
  · rename_i st hopening
    simp only [Option.some.injEq, Prod.mk.injEq] at hrun
    obtain ⟨-, hplays⟩ := prints {} "ab[clear][clear]c[clear]é"
    obtain ⟨o, hplay, hcompletes, hprints⟩ := hplays st hopening
    have hcompleted : o.completed := hcompletes.mpr (by simp [hrun.1])
    refine ⟨st, o, hopening, hplay, hcompleted, ?_⟩
    rw [hprints hcompleted, hwiped, hrun.2]
    decide
  · cases hrun

end Terminal
end TextReveal
