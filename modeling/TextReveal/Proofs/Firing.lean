import TextReveal.Proofs.Chapters
import TextReveal.Strip
import TextReveal.Validation
/-!
What fires the hub of a player: its sessions, each the actions that it passes, once and in order,
and nothing else that is done with the player.
-/
namespace TextReveal
open Number

/-- What can be asked about a text without showing it. -/
inductive Query where
  | finalText (text : String)
  | strip (text : String)
  | validate (text : String)
  | usedNames (text : String)
  deriving DecidableEq, Repr

namespace Query

def Answer : Query → Type
  | finalText _ | strip _ => String
  | validate _ => Validation
  | usedNames _ => List String

/-- The answer, and the stage behind it. -/
def ask {σ : Type} (st : Stage σ) : (q : Query) → q.Answer × Stage σ
  | finalText text => st.finalText text
  | strip text => (st.registry.strip text, st)
  | validate text => (st.registry.validate text, st)
  | usedNames text => (TextReveal.usedNames text, st)

end Query

/-- What can happen between a player and those around it. -/
inductive Happening where
  | call (c : Command)
  | ask (q : Query)
  | listen
  | unlisten (listener : Nat)
  deriving DecidableEq, Repr

/-- The text of a session that a call starts, and the speed asked for. -/
def Command.begun? : Command → Option (String × Option Single)
  | start text speed _ => some (text, speed)
  | skip | stop | setInstant _ | join => none

def Happening.begun? : Happening → Option (String × Option Single)
  | call c => c.begun?
  | ask _ | listen | unlisten _ => none

namespace Stage
variable {σ : Type} [TimeBase σ]

/-- What a stage can have become after such happenings, each call driven to its end. -/
inductive Annals (w : Surroundings σ) (start : Stage σ) : List Happening → Stage σ → Prop
  | begin : Annals w start [] start
  | move {past : List Happening} {st st' : Stage σ} (h : Annals w start past st)
    (hm : st.Move w st') : Annals w start past st'
  | call {past : List Happening} {st st' : Stage σ} (h : Annals w start past st) (c : Command)
    {answer : c.Answer} (hs : Request.Steps w (c.request, st) (.done answer, st')) :
    Annals w start (past ++ [.call c]) st'
  | ask {past : List Happening} {st : Stage σ} (h : Annals w start past st) (q : Query) :
    Annals w start (past ++ [.ask q]) (q.ask st).2
  | listen {past : List Happening} {st : Stage σ} (h : Annals w start past st) :
    Annals w start (past ++ [.listen]) st.listen.2
  | unlisten {past : List Happening} {st : Stage σ} (h : Annals w start past st) (listener : Nat) :
    Annals w start (past ++ [.unlisten listener]) (st.unlisten listener).2

/-- What others can see of a stage after such happenings: the next call may wait for a session. -/
def Beheld (w : Surroundings σ) (start : Stage σ) (past : List Happening) (st : Stage σ) : Prop :=
  Annals w start past st ∨
    ∃ (before : Stage σ) (c : Command) (session : Ticket) (next : Outcome → Request c.Answer),
      Annals w start past before ∧ Request.Steps w (c.request, before) (.await session next, st)

end Stage

namespace Stage
variable {σ : Type} {origin st st' : Stage σ} {hub : HubRef} {chapters : List Chapter}
  {begun : List (String × Option Single)} {fired : List String}

theorem render_builtin (h : st.registry = .withBuiltins hub) (source : String) (tags : List Tag)
    (speed : Single) : (st.render source tags speed).2 = st := by
  rw [render, h, Registry.signals_renderInstant]
  rfl

theorem ask_builtin (h : st.registry = .withBuiltins hub) (q : Query) : (q.ask st).2 = st := by
  cases q with
  | finalText text => exact render_builtin h ..
  | _ => rfl

/-- A record in chapters whose sessions were started with these texts. -/
def Recorded (origin : Stage σ) (hub : HubRef) (begun : List (String × Option Single))
    (st : Stage σ) : Prop :=
  ∃ chapters, Chapter.begun chapters = begun ∧ Chronicle origin hub chapters st

/-- The same without a session on the stage, where so much has been fired. -/
structure Rests (origin : Stage σ) (hub : HubRef) (begun : List (String × Option Single))
    (fired : List String) (st : Stage σ) : Prop where
  recorded : Recorded origin hub begun st
  jobs : st.jobs = []
  active : st.player.active = none
  payloads : st.payloads hub = fired

/-- What a stage is like when no call is under way. -/
inductive Filed (origin : Stage σ) (hub : HubRef) (begun : List (String × Option Single))
    (st : Stage σ) : Prop
  | rests (h : Rests origin hub begun (st.payloads hub) st)
  | plays {chapters : List Chapter} {t : Ticket} (hbegun : Chapter.begun chapters = begun)
    (h : Playing origin hub chapters t false st) (hactive : st.player.active = some t)

theorem Filed.recorded (h : Filed origin hub begun st) : Recorded origin hub begun st := by
  cases h with
  | rests h => exact h.recorded
  | plays hbegun h => exact ⟨_, hbegun, h.chronicle⟩

theorem Rests.filed (h : Rests origin hub begun fired st) :
    Filed origin hub begun st ∧ st.payloads hub = fired :=
  ⟨.rests { h with payloads := rfl }, h.payloads⟩

theorem record_foldl_perform (st : Stage σ) (effects : List Effect) :
    (effects.foldl perform st).record = st.record ++ Act.notes (effects.map .did) := by
  induction effects generalizing st with
  | nil => exact (List.append_nil _).symm
  | cons e effects ih =>
    rw [List.foldl_cons, ih, record_perform, List.append_assoc, List.map_cons,
      ← List.singleton_append, Act.notes_append]
    cases hnote : (Act.did e).note? <;> simp [Act.notes, hnote]

/-- Whoever makes remarks fires nothing. -/
theorem Rests.foldl_perform (h : Rests origin hub begun fired st) {effects : List Effect}
    (hremarks : Entry.Remarks (Act.notes (effects.map .did))) :
    Rests origin hub begun fired (effects.foldl perform st) := by
  have hkeeps := keeps_foldl_perform st effects
  obtain ⟨⟨chapters, rfl, hc⟩, hjobs, hactive, rfl⟩ := h
  have hc' := hc.remark hkeeps hremarks (record_foldl_perform st effects)
  refine ⟨⟨_, Chapter.begun_remarks chapters _, hc'⟩, hkeeps.jobs.trans hjobs,
    hkeeps.active.trans hactive, ?_⟩
  rw [hc'.payloads_eq, Chapter.runs_remarks, ← hc.payloads_eq]

theorem record_launch (st : Stage σ) (text : String) (speed : Option Single) (callback : Bool) :
    (st.launch text speed callback).2.record =
      st.record ++ [.frame "", .published (.started (st.started + 1))] := by
  simp [launch, record, publish, perform, setState, note, List.filter_append, Entry.isAct]

/-- A session that has not had a turn. -/
theorem stands_opening (horigin : origin.registry = .withBuiltins hub)
    (hconfig : st.player.config = origin.player.config) (text : String) (speed : Option Single) :
    Run.Stands origin hub ⟨st.started + 1, text, speed, []⟩ (st.opening text speed) where
  faces := by
    have hacts := Session.acts_start (st.started + 1) hub origin.player.config.unknownTags text
      (speed.getD origin.player.config.defaultSpeed)
    rw [Stance.flatten_rounds, ← horigin] at hacts
    exact ⟨[], by rw [List.nil_append, opening, hconfig, Status.acts, hacts]; rfl, rfl⟩
  fails := by
    rw [horigin]
    exact Session.failsTo_reports ..
  looks := trivial
  heeds := by
    obtain hsilent | ⟨-, hcomplete⟩ := Session.silent_start (st.started + 1)
      st.player.config.unknownTags text (Tag.lex text) (speed.getD st.player.config.defaultSpeed)
    · exact .inl ⟨hsilent, Session.heeds_start ..⟩
    · exact .inr (congrArg Status.ready hcomplete)

theorem Chronicle.launch (h : Chronicle origin hub chapters st)
    (horigin : origin.registry = .withBuiltins hub) (text : String) (speed : Option Single)
    (callback : Bool) :
    Chronicle origin hub (chapters ++ [.session ⟨st.started + 1, text, speed, []⟩])
      (st.launch text speed callback).2 where
  registry := h.registry
  config := h.config
  record := by
    rw [record_launch, h.record, List.flatMap_append]
    rfl
  numbers := by
    show _ = List.range' 1 (st.started + 1)
    rw [Chapter.runs_append, List.map_append, h.numbers, List.range'_1_concat, Nat.add_comm 1]
    rfl
  remarks := by
    rw [Chapter.remarks_session]
    exact h.remarks
  faces := by
    rw [Chapter.runs_append]
    intro run hmem
    obtain hmem | hmem := List.mem_append.mp hmem
    · exact h.faces run hmem
    · have hstands := stands_opening horigin h.config text speed
      cases List.mem_singleton.mp hmem
      exact ⟨_, hstands.faces, hstands.head?_acts⟩

/-- Calls that cancel what there is fire nothing afterwards. -/
theorem Rests.afterwards (h : Rests origin hub begun fired st)
    (horigin : origin.registry = .withBuiltins hub) (c : Command) :
    Filed origin hub (begun ++ c.begun?.toList) (c.afterwards st) ∧
      (c.afterwards st).payloads hub = fired := by
  obtain ⟨chapters, rfl, hc⟩ := h.recorded
  have hrests {st : Stage σ} (h : Rests origin hub (Chapter.begun chapters) fired st) :
      Filed origin hub (Chapter.begun chapters ++ []) st ∧ st.payloads hub = fired := by
    rw [List.append_nil]
    exact h.filed
  -- A launch opens a chapter that has told nothing yet; the other calls open none.
  cases c with
  | start text speed callback =>
    have hc' := hc.launch horigin text speed callback
    have hjobs := jobs_launch st text speed callback
    rw [h.jobs, List.nil_append] at hjobs
    have hstands := stands_opening horigin hc.config text speed
    have hplaying : Playing origin hub (chapters ++ [.session ⟨st.started + 1, text, speed, []⟩])
        ⟨st.started + 1, text, Tag.lex text, speed.getD st.player.config.defaultSpeed⟩ false
        (st.launch text speed callback).2 :=
      ⟨hc', _, hjobs, .inr ⟨chapters, _, rfl, rfl, hstands⟩⟩
    refine ⟨.plays (Chapter.begun_append _ _) hplaying rfl, ?_⟩
    show (st.launch text speed callback).2.payloads hub = fired
    rw [← h.payloads, ← filterMap_record, record_launch, List.filterMap_append, filterMap_record]
    exact List.append_nil _
  | setInstant text =>
    have hbuiltin : st.registry = .withBuiltins hub := hc.registry.trans horigin
    simp only [Command.afterwards, render_builtin hbuiltin]
    exact hrests (h.foldl_perform (Entry.remarks_frame _) : Rests _ _ _ _
      ([.frame _, .setState .completed].foldl perform st))
  | skip => exact hrests h
  | stop => exact hrests h
  | join => exact hrests h

theorem Playing.cancel {t : Ticket} (h : Playing origin hub chapters t false st) :
    Playing origin hub chapters t true
      ({ st with player := { st.player with active := none } }.cancelJob t.id) := by
  obtain ⟨hc, status, hjobs, hgoing⟩ := h
  exact ⟨hc.congr rfl rfl rfl rfl, status, by simp [cancelJob, hjobs], hgoing⟩

theorem Playing.removeJob {t : Ticket} {cancelled : Bool}
    (h : Playing origin hub chapters t cancelled st) (hactive : st.player.active = none) :
    Rests origin hub (Chapter.begun chapters) (st.payloads hub) (st.removeJob t.id) := by
  obtain ⟨hc, status, hjobs, -⟩ := h
  exact ⟨⟨chapters, rfl, hc.congr rfl rfl rfl rfl⟩, by simp [Stage.removeJob, hjobs], hactive, rfl⟩

theorem Playing.taken {t : Ticket} {cancelled : Bool}
    (h : Playing origin hub chapters t cancelled st) :
    Playing origin hub chapters t cancelled
      { st with player := { st.player with active := none } } :=
  ⟨h.chronicle.congr rfl rfl rfl rfl, h.job⟩

/-- What is seen of a stage while a call waits: a quiet one fires nothing. -/
def Tells (origin : Stage σ) (hub : HubRef) (begun : List (String × Option Single)) (quiet : Prop)
    (fired : List String) (_ : Ticket) (st : Stage σ) : Prop :=
  Recorded origin hub begun st ∧ (quiet → st.payloads hub = fired)

end Stage

namespace Request
variable {α σ : Type} [TimeBase σ] {w : Surroundings σ} {post : α → Stage σ → Prop}
  {origin st : Stage σ} {hub : HubRef} {chapters : List Chapter}
  {begun : List (String × Option Single)} {quiet : Prop} {t : Ticket} {cancelled : Bool}
open Stage

theorem ensures_await_playing (hw : ∀ r, w.registry r → r = origin.registry)
    {next : Outcome → Request α} (h : Playing origin hub chapters t cancelled st)
    (hactive : st.player.active = none) (hquiet : quiet → cancelled)
    (hnext : ∀ outcome fired gone, Rests origin hub (Chapter.begun chapters) fired gone →
      (cancelled → fired = st.payloads hub) →
      (next outcome).Ensures w (Tells origin hub (Chapter.begun chapters) quiet (st.payloads hub))
        post gone) :
    (await t next).Ensures w (Tells origin hub (Chapter.begun chapters) quiet (st.payloads hub))
      post st := by
  intro st' hm
  obtain ⟨chapters', hbegun, h', hpayloads⟩ := h.moves hw hm
  refine ⟨⟨⟨chapters', hbegun, h'.chronicle⟩, fun hq => hpayloads (hquiet hq)⟩, fun outcome _ => ?_⟩
  have hrests := h'.removeJob ((active_moves hm).trans hactive)
  rw [hbegun] at hrests
  exact hnext outcome _ _ hrests hpayloads

/-- Behind a halt there is no session, and nothing has been fired. -/
theorem ensures_halt_filed (hw : ∀ r, w.registry r → r = origin.registry)
    {next : Bool → Request α} (h : Filed origin hub begun st)
    (hnext : ∀ stopped gone, Rests origin hub begun (st.payloads hub) gone →
      (next stopped).Ensures w (Tells origin hub begun quiet (st.payloads hub)) post gone) :
    (halt next).Ensures w (Tells origin hub begun quiet (st.payloads hub)) post st := by
  cases h with
  | rests h =>
    simp only [halt, Ensures, h.active]
    exact hnext false st h
  | plays hbegun h hactive =>
    subst hbegun
    simp only [halt, Ensures, hactive]
    refine ensures_await_playing hw h.cancel rfl (fun _ => rfl) ?_
    intro outcome fired gone hrests hsame
    obtain rfl := hsame rfl
    split
    · refine ensures_performAll _ (hnext true _ (hrests.foldl_perform ?_))
      exact Entry.remarks_cancelled _
    · exact hnext false gone hrests

theorem ensures_skip_filed (hw : ∀ r, w.registry r → r = origin.registry)
    (horigin : origin.registry = .withBuiltins hub) (h : Filed origin hub begun st) :
    Request.skip.Ensures w (Tells origin hub begun quiet (st.payloads hub))
      (fun _ st' => Filed origin hub begun st' ∧ st'.payloads hub = st.payloads hub) st := by
  rw [Request.skip, Ensures]
  split
  · exact ⟨h, rfl⟩
  · cases h with
    | rests h =>
      simp only [Ensures, h.active]
      exact ⟨.rests h, trivial⟩
    | plays hbegun h hactive =>
      subst hbegun
      simp only [Ensures, hactive]
      refine ensures_await_playing hw h.cancel rfl (fun _ => rfl) ?_
      intro outcome fired gone hrests hsame
      obtain rfl := hsame rfl
      cases outcome with
      | completed => exact hrests.filed
      | cancelled =>
        obtain ⟨chapters, -, hc⟩ := hrests.recorded
        have hbuiltin : gone.registry = .withBuiltins hub := hc.registry.trans horigin
        simp only [Ensures, Option.getD_some, render_builtin hbuiltin]
        refine ensures_performAll _ (hrests.foldl_perform ?_).filed
        exact Entry.remarks_skipped _ _

theorem ensures_join_filed (hw : ∀ r, w.registry r → r = origin.registry)
    (h : Filed origin hub begun st) (hquiet : ¬quiet) :
    Request.join.Ensures w (Tells origin hub begun quiet (st.payloads hub))
      (fun _ st' => Filed origin hub begun st') st := by
  cases h with
  | rests h =>
    simp only [Request.join, Ensures, h.active]
    rw [← h.active]
    exact .rests h
  | plays hbegun h hactive =>
    subst hbegun
    rw [Request.join, Ensures, hactive]
    have htaken := h.taken
    exact ensures_await_playing hw htaken rfl (fun hq => absurd hq hquiet)
      fun outcome fired gone hrests _ => hrests.filed.1

/-- No call but one that waits for a session to end by itself fires anything. -/
theorem ensures_filed (hw : ∀ r, w.registry r → r = origin.registry)
    (horigin : origin.registry = .withBuiltins hub) (h : Filed origin hub begun st) (c : Command) :
    c.request.Ensures w (Tells origin hub begun (c ≠ .join) (st.payloads hub))
      (fun _ st' => Filed origin hub (begun ++ c.begun?.toList) st' ∧
        (c ≠ .join → st'.payloads hub = st.payloads hub)) st := by
  have hcancels (hc : c.cancels) : c.request.Ensures w
      (Tells origin hub begun (c ≠ .join) (st.payloads hub))
      (fun _ st' => Filed origin hub (begun ++ c.begun?.toList) st' ∧
        (c ≠ .join → st'.payloads hub = st.payloads hub)) st := by
    refine Command.ensures_of_cancels hc fun next hnext => ensures_halt_filed hw h ?_
    intro stopped gone hrests
    obtain ⟨hfiled, hsame⟩ := hrests.afterwards horigin c
    exact hnext stopped gone fun _ => ⟨hfiled, fun _ => hsame⟩
  cases c with
  | start => exact hcancels rfl
  | stop => exact hcancels rfl
  | setInstant => exact hcancels rfl
  | skip =>
    refine (ensures_skip_filed hw horigin h).mono ?_
    rintro answer st' ⟨hfiled, hsame⟩
    exact ⟨by rwa [Command.begun?, Option.toList_none, List.append_nil], fun _ => hsame⟩
  | join =>
    refine (ensures_join_filed hw h (by simp)).mono fun _ st' hfiled => ?_
    exact ⟨by rwa [Command.begun?, Option.toList_none, List.append_nil], by simp⟩

end Request

namespace Stage
variable {σ : Type} {origin start st st' : Stage σ} {hub : HubRef}
  {begun : List (String × Option Single)}

theorem filed_of_new? {registry : Registry} {clock : σ} {config : Config} {listened : HubRef}
    (h : Stage.new? registry clock config listened = some start) : Filed start hub [] start := by
  obtain ⟨channel, -, rfl⟩ := Option.map_eq_some_iff.mp h
  exact .rests ⟨⟨[], rfl, rfl, rfl, rfl, rfl, Entry.remarks_nil, by simp [Chapter.runs]⟩, rfl,
    rfl, rfl⟩

/-- Nothing but the record, the sessions and their numbers counts. -/
theorem Filed.congr (h : Filed origin hub begun st) (hkeeps : Keeps st st')
    (hrecord : st'.record = st.record) : Filed origin hub begun st' := by
  have hsame {chapters : List Chapter} (hc : Chronicle origin hub chapters st) :
      Chronicle origin hub chapters st' :=
    hc.congr hkeeps.registry hkeeps.config hkeeps.started hrecord
  cases h with
  | rests h =>
    obtain ⟨⟨chapters, hbegun, hc⟩, hjobs, hactive, -⟩ := h
    exact .rests ⟨⟨chapters, hbegun, hsame hc⟩, hkeeps.jobs.trans hjobs,
      hkeeps.active.trans hactive, rfl⟩
  | plays hbegun h hactive =>
    obtain ⟨hc, status, hjobs, hgoing⟩ := h
    exact .plays hbegun ⟨hsame hc, status, hkeeps.jobs.trans hjobs, hgoing⟩
      (hkeeps.active.trans hactive)

variable [TimeBase σ] {w : Surroundings σ} {past : List Happening}

theorem Filed.move (hw : ∀ r, w.registry r → r = origin.registry)
    (h : Filed origin hub begun st) (hm : st.Move w st') : Filed origin hub begun st' := by
  cases h with
  | rests h =>
    obtain ⟨⟨chapters, hbegun, hc⟩, hjobs, hactive, -⟩ := h
    obtain ⟨clock, registry, rfl, hr⟩ := eq_of_moves_of_over (by simp [hjobs]) (.single hm)
    have hsame : registry = st.registry :=
      hr.elim id fun hr => (hw _ hr).trans hc.registry.symm
    exact .rests ⟨⟨chapters, hbegun, hc.congr hsame rfl rfl rfl⟩, hjobs, hactive, rfl⟩
  | plays hbegun h hactive =>
    obtain ⟨chapters', hbegun', h', -⟩ := h.moves hw (.single hm)
    exact .plays (hbegun'.trans hbegun) h' ((active_moves (.single hm)).trans hactive)

theorem keeps_unlisten {σ : Type} (st : Stage σ) (listener : Nat) :
    Keeps st (st.unlisten listener).2 := by
  unfold unlisten
  split <;> exact ⟨rfl, rfl, rfl, rfl, rfl⟩

theorem record_unlisten {σ : Type} (st : Stage σ) (listener : Nat) :
    (st.unlisten listener).2.record = st.record := by
  unfold unlisten
  split <;> rfl

theorem Annals.filed (hw : ∀ r, w.registry r → r = start.registry)
    (horigin : start.registry = .withBuiltins hub) (hstart : Filed start hub [] start)
    (h : Annals w start past st) : Filed start hub (past.filterMap Happening.begun?) st := by
  induction h with
  | begin => exact hstart
  | move _ hm ih => exact ih.move hw hm
  | call _ c hs ih =>
    obtain ⟨hfiled, -⟩ := (Request.ensures_filed hw horigin ih c).steps hs
    rw [List.filterMap_append]
    cases hbegun : c.begun? with
    | none => simpa [Happening.begun?, hbegun] using hfiled
    | some text => simpa [Happening.begun?, hbegun] using hfiled
  | ask _ q ih =>
    obtain ⟨chapters, -, hc⟩ := ih.recorded
    rw [ask_builtin (hc.registry.trans horigin), List.filterMap_append]
    exact (List.append_nil _).symm ▸ ih
  | listen _ ih =>
    rw [List.filterMap_append]
    exact (List.append_nil _).symm ▸ ih.congr ⟨rfl, rfl, rfl, rfl, rfl⟩ rfl
  | unlisten _ listener ih =>
    rw [List.filterMap_append]
    exact (List.append_nil _).symm ▸
      ih.congr (keeps_unlisten _ listener) (record_unlisten _ listener)

end Stage

/-- What fires the hub of a player with the built-in handlers, whatever its clock does and whoever
listens. Its record is in chapters, one for each session that a call has started. A session tells
the beginning of its script; what it fires are the actions that it has passed, each once and as they
come in its text, and those of its whole text if it comes to its natural end. Nothing else is fired:
questions change nothing, and no call fires anything but one that waits for a session to end. -/
theorem Stage.Beheld.fires {σ : Type} [TimeBase σ] {w : Surroundings σ} {clock : σ}
    {config : Config} {hub listened : HubRef} {start st : Stage σ} {past : List Happening}
    (hnew : Stage.new? (.withBuiltins hub) clock config listened = some start)
    (hw : ∀ r, w.registry r → r = .withBuiltins hub) (h : Beheld w start past st) :
    (∃ chapters, Chapter.begun chapters = past.filterMap Happening.begun? ∧
      Chronicle start hub chapters st ∧
      st.payloads hub = (Chapter.runs chapters).flatMap
        (fun run => (run.passed start).filterMap Piece.action?) ∧
      ∀ run ∈ Chapter.runs chapters, run.told <+: run.script start hub ∧
        run.fired hub = (run.passed start).filterMap Piece.action? ∧
        (.published (.completed run.id) ∈ st.record → .published (.skipped run.id) ∉ st.record →
          run.told = run.script start hub ∧
            run.fired hub = (Tag.lex run.text).filterMap Tag.action?) ∧
        ∀ t ∈ Tag.lex run.text, t.parameter.toList = t.written) ∧
    (∀ q : Query, (q.ask st).2 = st) ∧
    (Annals w start past st → ∀ c : Command, c ≠ .join →
      (∀ session next mid, Request.Steps w (c.request, st) (.await session next, mid) →
        mid.payloads hub = st.payloads hub) ∧
      ∀ answer after, Request.Steps w (c.request, st) (.done answer, after) →
        after.payloads hub = st.payloads hub) := by
  have horigin : start.registry = .withBuiltins hub := by
    obtain ⟨channel, -, rfl⟩ := Option.map_eq_some_iff.mp hnew
    rfl
  have hsame : ∀ r, w.registry r → r = start.registry := fun r hr => (hw r hr).trans horigin.symm
  have hfiled {past : List Happening} {st : Stage σ} (h : Annals w start past st) :
      Filed start hub (past.filterMap Happening.begun?) st :=
    h.filed hsame horigin (filed_of_new? hnew)
  -- A call that waits has a record in chapters as well: each of its waits ensures one.
  have hrecorded : Recorded start hub (past.filterMap Happening.begun?) st := by
    obtain h | ⟨before, c, session, next, h, hs⟩ := h
    · exact (hfiled h).recorded
    · exact ((Request.ensures_filed hsame horigin (hfiled h) c).steps hs st .refl).1.1
  obtain ⟨chapters, hbegun, hc⟩ := hrecorded
  have hpassed : ∀ run ∈ Chapter.runs chapters,
      run.fired hub = (run.passed start).filterMap Piece.action? := by
    intro run hrun
    obtain ⟨rest, hfaces, hrest⟩ := hc.faces run hrun
    exact hfaces.fired_eq hrest
  refine ⟨⟨chapters, hbegun, hc, ?_, fun run hrun => ?_⟩, ?_, fun h c hquiet => ⟨?_, ?_⟩⟩
  · rw [hc.payloads_eq]
    exact List.flatMap_congr hpassed
  · obtain ⟨rest, hfaces, -⟩ := hc.faces run hrun
    refine ⟨hfaces.told_prefix_script, hpassed run hrun, fun hend hasked => ?_, fun t ht => ?_⟩
    · have hall := hc.told_eq_script hrun hend hasked
      exact ⟨hall, Run.fired_of_told_eq_script horigin hall⟩
    · obtain ⟨position, inner, -, hspan⟩ := Tag.exists_ofSpan?_of_mem ht
      exact Tag.parameter_of_ofSpan? hspan
  · exact ask_builtin (hc.registry.trans horigin)
  · intro session next mid hs
    exact ((Request.ensures_filed hsame horigin (hfiled h) c).steps hs mid .refl).1.2 hquiet
  · intro answer after hs
    have hafter := (Request.ensures_filed hsame horigin (hfiled h) c).steps hs
    exact hafter.2 hquiet

/-- A text that is skipped behind its first action: the second is not fired, be it that its final
text is shown and another is asked for. -/
theorem Stage.Beheld.fires_of_skip :
    ∃ (start st : Stage Clock) (chapters : List Chapter),
      Stage.new? (.withBuiltins .own) {} {} .own = some start ∧
      Beheld ⟨fun _ => True, (· = .withBuiltins .own)⟩ start
        [.call (.start "a[action=x]b[action=y]" none true), .listen, .call .skip,
          .ask (.finalText "[action=z]")] st ∧
      st.display = "ab" ∧ Chapter.begun chapters = [("a[action=x]b[action=y]", none)] ∧
      Chronicle start .own chapters st ∧ st.payloads .own = ["x"] ∧
      (Chapter.runs chapters).flatMap (fun run => (run.passed start).filterMap Piece.action?) =
        ["x"] := by
  have hrun : ((Stage.new? (.withBuiltins .own) ({} : Clock) {} .own).bind fun start =>
      ((Request.start "a[action=x]b[action=y]" none true).run? start).bind fun begun =>
        (Request.skip.run? (turn false 0 ({ begun.2.turn false 0 with
          clock := { permits := 1 } } : Stage Clock)).listen.2).map fun skipped =>
            (((Query.finalText "[action=z]").ask skipped.2).2.display,
              ((Query.finalText "[action=z]").ask skipped.2).2.payloads .own)) =
      some ("ab", ["x"]) := by
    decide +kernel
  simp only [Option.bind_eq_some_iff, Option.map_eq_some_iff, Prod.mk.injEq] at hrun
  obtain ⟨start, hnew, ⟨id, begun⟩, hbegun, ⟨answer, st⟩, hskip, hshown, hpayloads⟩ := hrun
  have hpast : Annals ⟨fun _ => True, (· = .withBuiltins .own)⟩ start
      [.call (.start "a[action=x]b[action=y]" none true), .listen, .call .skip,
        .ask (.finalText "[action=z]")] ((Query.finalText "[action=z]").ask st).2 :=
    (((((Annals.begin.call (.start "a[action=x]b[action=y]" none true)
      (Request.steps_of_run? _ hbegun)).move (.turn false 0 begun)).move
        (.clock trivial)).move (.turn false 0 _)).listen.call .skip
          (Request.steps_of_run? _ hskip)).ask (.finalText "[action=z]")
  obtain ⟨⟨chapters, htexts, hchronicle, hfired, -⟩, -⟩ := fires hnew (fun _ hr => hr) (.inl hpast)
  exact ⟨start, _, chapters, hnew, .inl hpast, hshown, htexts, hchronicle, hpayloads,
    hfired.symm.trans hpayloads⟩

end TextReveal
