import TextReveal.Proofs.Curtailing
/-!
What sessions have told, text by text, and the actions that they have passed. A session passes a
unit of its text when it shows the display behind it, and an action is fired just before that.
-/
namespace TextReveal
open Number

namespace Entry

def isFrame : Entry → Bool
  | frame _ => true
  | _ => false

/-- What is fired on a hub. -/
def payload? (hub : HubRef) : Entry → Option String
  | fired hub' payload => if hub' = hub then some payload else none
  | _ => none

end Entry

namespace Tag

/-- What a tag fires if it is passed. -/
def action? (t : Tag) : Option String :=
  if t.name = "action" then some t.parameter else none

/-- What stands behind the first equals sign of a tag that opens, as it is written there. -/
def written (t : Tag) : List Char :=
  if t.closing then [] else ((t.fullText.toList.dropWhile (· ≠ '=')).drop 1).dropLast

theorem parameter_parts (inner : List Char) : (parts inner).2.1 =
    if (parts inner).2.2 then [] else (inner.dropWhile (· ≠ '=')).drop 1 := by
  unfold parts
  split <;> rfl

theorem drop_dropWhile_span (inner : List Char) :
    (((Segment.span inner).chars.dropWhile (· ≠ '=')).drop 1).dropLast =
      (inner.dropWhile (· ≠ '=')).drop 1 := by
  rw [Segment.chars, List.cons_append, List.dropWhile_cons_of_pos (by decide),
    List.dropWhile_append]
  cases inner.dropWhile (· ≠ '=') with
  | nil => rfl
  | cons c rest => simp

theorem parameter_of_ofSpan? {start : Nat} {inner : List Char} {t : Tag}
    (h : ofSpan? start inner = some t) : t.parameter.toList = t.written := by
  have hfull := fullText_of_ofSpan? h
  simp only [ofSpan?, Option.ite_none_left_eq_some, Option.some.injEq] at h
  rw [written, hfull, drop_dropWhile_span, ← h.2]
  simp [parameter_parts]

end Tag

def Piece.action? : Piece → Option String
  | plain _ => none
  | tag t => t.action?

namespace Act

/-- What acts write down. -/
def notes (acts : List Act) : List Entry := acts.filterMap note?

theorem notes_append (acts rest : List Act) : notes (acts ++ rest) = notes acts ++ notes rest :=
  List.filterMap_append

/-- What acts fire on a hub. -/
def fired (hub : HubRef) (acts : List Act) : List String :=
  (notes acts).filterMap (Entry.payload? hub)

theorem fired_append (hub : HubRef) (acts rest : List Act) :
    fired hub (acts ++ rest) = fired hub acts ++ fired hub rest := by
  rw [fired, notes_append, List.filterMap_append, fired, fired]

/-- How often acts show the display. -/
def frames (acts : List Act) : Nat := (notes acts).countP Entry.isFrame

theorem frames_append (acts rest : List Act) :
    frames (acts ++ rest) = frames acts + frames rest := by
  rw [frames, notes_append, List.countP_append, frames, frames]

end Act

namespace Stance
variable {hub : HubRef} {policy : UnknownTags} {s : Stance} {p : Piece}

theorem notes_turnActs (step : Nat) (speed : Single) :
    Act.notes (Session.turnActs step speed) = [] := by
  unfold Session.turnActs
  split <;> rfl

theorem notes_delayActs (speed : Single) : Act.notes (Session.delayActs speed) =
    if speed.isPositive then [.asked speed] else [] := by
  unfold Session.delayActs
  split <;> rfl

theorem notes_tagActs (t : Tag) : Act.notes (t.acts hub) =
    t.pause?.toList.map .asked ++ t.action?.toList.map (.fired hub) := by
  unfold Tag.acts Tag.action?
  by_cases hpause : t.name = "pause"
  · rw [if_pos hpause, if_neg (by simp [hpause])]
    cases t.pause? <;> rfl
  · rw [if_neg hpause, Tag.pause?, if_neg hpause]
    split <;> rfl

/-- What a step of the loop writes down: all that comes before the display is shown, and what comes
after. -/
theorem notes_acts (hub : HubRef) (policy : UnknownTags) (s : Stance) (p : Piece) :
    Act.notes (s.acts hub policy p) = match p with
      | .plain c => .published (.revealed c.toString s.position) ::
          .frame (s.after policy p).shown ::
            if s.tempo.speed.isPositive then [.asked s.tempo.speed] else []
      | .tag t => t.pause?.toList.map .asked ++ t.action?.toList.map (.fired hub) ++
          [.frame (s.after policy p).shown] := by
  cases p with
  | plain c =>
    rw [acts, Act.notes_append, notes_turnActs, List.nil_append]
    exact congrArg (_ :: _ :: ·) (notes_delayActs _)
  | tag t =>
    rw [acts, Act.notes_append, notes_turnActs, List.nil_append, Act.notes_append, notes_tagActs]
    rfl

theorem isDeed_of_mem_notes {entry : Entry} (h : entry ∈ Act.notes (s.acts hub policy p)) :
    entry.isDeed := by
  rw [notes_acts] at h
  cases p with
  | plain c =>
    rw [List.mem_cons, List.mem_cons, List.mem_ite_nil_right, List.mem_singleton] at h
    obtain rfl | rfl | ⟨-, rfl⟩ := h <;> rfl
  | tag t =>
    rw [List.mem_append, List.mem_append, List.mem_map, List.mem_map, List.mem_singleton] at h
    obtain (⟨seconds, -, rfl⟩ | ⟨payload, -, rfl⟩) | rfl := h <;> rfl

theorem fired_acts (s : Stance) (p : Piece) :
    Act.fired hub (s.acts hub policy p) = p.action?.toList := by
  rw [Act.fired, notes_acts]
  cases p with
  | plain c =>
    dsimp only
    split <;> rfl
  | tag t =>
    dsimp only
    rw [show (Piece.tag t).action? = t.action? from rfl]
    generalize t.action?.toList = actions
    simp [Entry.payload?, List.filterMap_map, Function.comp_def]

theorem frames_acts (s : Stance) (p : Piece) : Act.frames (s.acts hub policy p) = 1 := by
  rw [Act.frames, notes_acts]
  cases p with
  | plain c =>
    dsimp only
    split <;> rfl
  | tag t =>
    simp [Entry.isFrame, List.countP_map, Function.comp_def]

theorem acts_of_action? {payload : String} (h : p.action? = some payload) (s : Stance) :
    s.acts hub policy p = Session.turnActs (s.steps + 1) s.tempo.speed ++
      [.did (.signal (.action hub payload)), .did (.frame (s.after policy p).shown)] := by
  cases p with
  | plain c => cases h
  | tag t =>
    obtain ⟨hname, ⟨⟩⟩ := Option.ite_none_right_eq_some.mp h
    rw [acts, Tag.acts, if_neg (by simp [hname]), if_pos hname]
    rfl

/-- What has been done of a step where the display is not the next thing to be shown: nothing has
been fired yet. -/
theorem fired_of_acts_eq_append {done later : List Act} {act : Act}
    (h : s.acts hub policy p = done ++ act :: later) (hact : ∀ text, act ≠ .did (.frame text)) :
    Act.fired hub done = [] ∧ (Act.frames done = 0 ∨ Act.frames done = 1 ∧ p.action? = none) := by
  cases haction : p.action? with
  | none =>
    have hfired : Act.fired hub (s.acts hub policy p) = _ := fired_acts s p
    have hframes : Act.frames (s.acts hub policy p) = 1 := frames_acts s p
    rw [h, haction, Act.fired_append, Option.toList_none, List.append_eq_nil_iff] at hfired
    rw [h, Act.frames_append] at hframes
    obtain hzero | hone : Act.frames done = 0 ∨ Act.frames done = 1 := by omega
    · exact ⟨hfired.1, .inl hzero⟩
    · exact ⟨hfired.1, .inr ⟨hone, rfl⟩⟩
  | some payload =>
    -- All that there is before the firing are looks, and behind it comes the display at once.
    have hturn : ∃ later, Session.turnActs (s.steps + 1) s.tempo.speed = done ++ later := by
      rw [acts_of_action? haction, List.append_eq_append_iff] at h
      obtain ⟨c, rfl, hrest⟩ | ⟨a, hturn, -⟩ := h
      · obtain _ | ⟨_, _ | ⟨_, c⟩⟩ := c
        · exact ⟨[], by simp⟩
        · simp only [List.cons_append, List.nil_append, List.cons.injEq] at hrest
          exact absurd hrest.2.1.symm (hact _)
        · simp at hrest
      · exact ⟨a, hturn⟩
    obtain ⟨later, hturn⟩ := hturn
    have hnotes := notes_turnActs (s.steps + 1) s.tempo.speed
    rw [hturn, Act.notes_append, List.append_eq_nil_iff] at hnotes
    rw [Act.fired, Act.frames, hnotes.1]
    exact ⟨rfl, .inl rfl⟩

/-- Where the display is not the next thing to be shown, the actions fired are those of the units
behind which it has been shown. -/
theorem fired_eq_take {units : List Piece} {done rest tail : List Act}
    (h : acting hub policy (s.course policy units) ++ tail = done ++ rest)
    (htail : Act.fired hub tail = []) (hrest : ∀ text, rest.head? ≠ some (.did (.frame text))) :
    Act.fired hub done = (units.take (Act.frames done)).filterMap Piece.action? := by
  induction units generalizing s done with
  | nil =>
    rw [show tail = done ++ rest from h, Act.fired_append, List.append_eq_nil_iff] at htail
    rw [List.take_nil]
    exact htail.1
  | cons p units ih =>
    have hpassed (done' : List Act)
        (h' : acting hub policy ((s.after policy p).course policy units) ++ tail = done' ++ rest) :
        Act.fired hub (s.acts hub policy p ++ done') =
          ((p :: units).take (Act.frames (s.acts hub policy p ++ done'))).filterMap
            Piece.action? := by
      rw [Act.fired_append, Act.frames_append, fired_acts, frames_acts, ih h', Nat.add_comm 1,
        List.take_succ_cons, List.filterMap_cons]
      cases p.action? <;> rfl
    have hsplit : s.acts hub policy p ++
        (acting hub policy ((s.after policy p).course policy units) ++ tail) = done ++ rest := by
      rw [← h, ← List.append_assoc]
      rfl
    -- What has been done goes beyond this step, or ends with it, or ends within it.
    obtain ⟨done', rfl, h'⟩ | ⟨c, hacts, hrest'⟩ := List.append_eq_append_iff.mp hsplit
    · exact hpassed done' h'
    · cases c with
      | nil =>
        rw [List.append_nil] at hacts
        have hnow := hpassed [] hrest'.symm
        rwa [List.append_nil, hacts] at hnow
      | cons act later =>
        have hact : ∀ text, act ≠ .did (.frame text) := by
          rintro text rfl
          exact hrest text (by rw [hrest']; rfl)
        obtain ⟨hfired, hzero | ⟨hone, hnone⟩⟩ := fired_of_acts_eq_append hacts hact
        · rw [hfired, hzero]
          rfl
        · rw [hfired, hone, List.take_succ_cons, List.filterMap_cons, hnone]
          rfl

theorem snd_course (policy : UnknownTags) (s : Stance) (units : List Piece) :
    (s.course policy units).map Prod.snd = units := by
  induction units generalizing s with
  | nil => rfl
  | cons p units ih => rw [course, List.map_cons, ih]

theorem frames_acting (steps : List (Stance × Piece)) :
    Act.frames (acting hub policy steps) = steps.length := by
  induction steps with
  | nil => rfl
  | cons step steps ih =>
    rw [acting, List.flatMap_cons, Act.frames_append, frames_acts, Nat.add_comm]
    exact congrArg (· + 1) ih

theorem isDeed_of_mem_notes_acting {steps : List (Stance × Piece)} {entry : Entry}
    (h : entry ∈ Act.notes (acting hub policy steps)) : entry.isDeed := by
  rw [Act.notes, acting, List.filterMap_flatMap, List.mem_flatMap] at h
  obtain ⟨step, -, h⟩ := h
  exact isDeed_of_mem_notes h

end Stance

/-- Nobody but the built-in handler is needed to take an action as a whole. -/
theorem Registry.takes_of_action? {hub : HubRef} {policy : UnknownTags} {t : Tag} {payload : String}
    (h : t.action? = some payload) : (withBuiltins hub).takes policy t := by
  obtain ⟨hname, -⟩ := Option.ite_none_right_eq_some.mp h
  rw [takes_iff, get?_withBuiltins.mpr (.action (by rw [hname]; decide))]
  exact .inl rfl

namespace Stage
variable {σ : Type}

/-- What is fired on a hub, whether anybody listens or not. -/
def payloads (st : Stage σ) (hub : HubRef) : List String :=
  st.journal.toList.filterMap (Entry.payload? hub)

theorem filterMap_record (st : Stage σ) (hub : HubRef) :
    st.record.filterMap (Entry.payload? hub) = st.payloads hub := by
  rw [record, payloads, List.filterMap_filter]
  refine List.filterMap_congr fun entry _ => ?_
  cases entry <;> rfl

/-- What the loop of a session over a text makes one step for each. -/
def units (st : Stage σ) (text : String) : List Piece :=
  (Piece.cut text).flatMap (Piece.units (st.registry.takes st.player.config.unknownTags))

/-- Of the actions of a text none is lost. -/
theorem action?_units {st : Stage σ} {hub : HubRef} (hregistry : st.registry = .withBuiltins hub)
    (text : String) :
    (st.units text).filterMap Piece.action? = (Tag.lex text).filterMap Tag.action? := by
  have hplain (cs : List Char) : (cs.map Piece.plain).filterMap Piece.action? = [] := by
    rw [List.filterMap_map, List.filterMap_eq_nil_iff]
    exact fun _ _ => rfl
  rw [units, hregistry, ← Piece.tags_cut]
  induction Piece.cut text with
  | nil => rfl
  | cons p rest ih =>
    rw [List.flatMap_cons, List.filterMap_append, ih]
    cases p with
    | plain c => rfl
    | tag t =>
      rw [Piece.units, List.filterMap_cons_some (show (Piece.tag t).tag? = some t from rfl),
        List.filterMap_cons]
      cases haction : t.action? with
      | some payload =>
        rw [if_pos (Registry.takes_of_action? haction), List.filterMap_cons,
          show (Piece.tag t).action? = some payload from haction]
        rfl
      | none =>
        split
        · rw [List.filterMap_cons, show (Piece.tag t).action? = none from haction]
          rfl
        · rw [hplain]
          rfl

end Stage

/-- A session: its text, the speed that was asked for, and what it has told since its start. -/
structure Run where
  id : Nat
  text : String
  speed : Option Single
  told : List Entry

namespace Run
variable {σ : Type} (st : Stage σ) (hub : HubRef) (run : Run)

/-- What the session does if nothing cuts it short. -/
def acts : List Act :=
  Stance.acting hub st.player.config.unknownTags (st.course run.text run.speed) ++
    (Session.complete run.id).acts st.registry

/-- What it tells then. -/
def script : List Entry := Act.notes (run.acts st hub)

/-- The units of its text that it has passed: the display has been shown behind them. -/
def passed : List Piece := (st.units run.text).take (run.told.countP Entry.isFrame)

/-- What it has fired. -/
def fired : List String := run.told.filterMap (Entry.payload? hub)

/-- It has these acts before it. -/
def Faces (rest : List Act) : Prop :=
  ∃ done, run.acts st hub = done ++ rest ∧ run.told = Act.notes done

variable {st hub run} {rest : List Act}

theorem Faces.told_prefix_script (h : run.Faces st hub rest) : run.told <+: run.script st hub := by
  obtain ⟨done, hacts, htold⟩ := h
  rw [script, hacts, Act.notes_append, htold]
  exact List.prefix_append _ _

theorem Faces.fired_eq (h : run.Faces st hub rest)
    (hrest : ∀ text, rest.head? ≠ some (.did (.frame text))) :
    run.fired hub = (run.passed st).filterMap Piece.action? := by
  obtain ⟨done, hacts, htold⟩ := h
  rw [fired, passed, htold]
  exact Stance.fired_eq_take hacts rfl hrest

theorem script_eq (st : Stage σ) (hub : HubRef) (run : Run) : run.script st hub =
    Act.notes (Stance.acting hub st.player.config.unknownTags (st.course run.text run.speed)) ++
      [.published (.completed run.id)] :=
  Act.notes_append _ _

/-- A session tells no other's end. -/
theorem Faces.id_of_told (h : run.Faces st hub rest) {id : Nat}
    (hend : .published (.completed id) ∈ run.told) : id = run.id := by
  have hmem := h.told_prefix_script.subset hend
  rw [script_eq] at hmem
  obtain hmem | hmem := List.mem_append.mp hmem
  · cases Stance.isDeed_of_mem_notes_acting hmem
  · cases List.mem_singleton.mp hmem
    rfl

/-- A session that tells its end has told everything. -/
theorem Faces.told_eq_script (h : run.Faces st hub rest)
    (hend : .published (.completed run.id) ∈ run.told) : run.told = run.script st hub := by
  obtain ⟨later, hscript⟩ := h.told_prefix_script
  obtain rfl | ⟨later, entry, rfl⟩ := later.eq_nil_or_concat
  · rw [← hscript, List.append_nil]
  · rw [script_eq, List.concat_eq_append, ← List.append_assoc] at hscript
    have hmem := (List.append_inj' hscript rfl).1 ▸ List.mem_append_left later hend
    cases Stance.isDeed_of_mem_notes_acting hmem

theorem fired_of_told_eq_script (hregistry : st.registry = .withBuiltins hub)
    (h : run.told = run.script st hub) :
    run.fired hub = (Tag.lex run.text).filterMap Tag.action? := by
  have hfaces : run.Faces st hub [] := ⟨_, (List.append_nil _).symm, h⟩
  have hall : run.told.countP Entry.isFrame = (st.units run.text).length := by
    have hframes : Act.frames (run.acts st hub) = (st.course run.text run.speed).length := by
      rw [acts, Act.frames_append, Stance.frames_acting]
      rfl
    rw [h, ← Stance.snd_course st.player.config.unknownTags _ (st.units run.text)]
    exact hframes.trans (List.length_map _).symm
  rw [hfaces.fired_eq (by simp), passed, hall, List.take_length, Stage.action?_units hregistry]

end Run
end TextReveal
