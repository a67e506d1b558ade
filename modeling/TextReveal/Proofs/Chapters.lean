import Mathlib.Data.List.Nodup
import TextReveal.Proofs.Heeding
import TextReveal.Proofs.Passing
/-!
The record of a player in chapters: what each of its sessions has told, and the remarks that stand
between them, on texts shown without a session and on how sessions have ended.
-/
namespace TextReveal
open Number

/-- A text shown without a session, or the end of one. -/
def Entry.isRemark : Entry → Bool
  | frame _ | published (.completed _) | published (.skipped _) | published (.cancelled _) => true
  | _ => false

/-- Entries that somebody else makes in place of a session. A completion is one that was asked
for. -/
structure Entry.Remarks (entries : List Entry) : Prop where
  isRemark : ∀ entry ∈ entries, entry.isRemark
  skipped : ∀ id, published (.completed id) ∈ entries → published (.skipped id) ∈ entries

theorem Entry.remarks_nil : Remarks [] := ⟨by simp, by simp⟩

theorem Entry.remarks_frame (text : String) : Remarks [frame text] :=
  ⟨by simp [isRemark], by simp⟩

theorem Entry.remarks_cancelled (id : Nat) : Remarks [published (.cancelled id)] :=
  ⟨by simp [isRemark], by simp⟩

theorem Entry.remarks_skipped (text : String) (id : Nat) :
    Remarks [frame text, published (.skipped id), published (.completed id)] :=
  ⟨by simp [isRemark], by simp⟩

theorem Entry.Remarks.append {entries later : List Entry} (h : Remarks entries)
    (h' : Remarks later) : Remarks (entries ++ later) where
  isRemark := List.forall_mem_append.mpr ⟨h.isRemark, h'.isRemark⟩
  skipped id hmem := by
    obtain hmem | hmem := List.mem_append.mp hmem
    · exact List.mem_append_left _ (h.skipped id hmem)
    · exact List.mem_append_right _ (h'.skipped id hmem)

inductive Chapter where
  | session (run : Run)
  | remark (entry : Entry)

namespace Chapter

def entries : Chapter → List Entry
  | session run => .frame "" :: .published (.started run.id) :: run.told
  | remark entry => [entry]

def run? : Chapter → Option Run
  | session run => some run
  | remark _ => none

def remark? : Chapter → Option Entry
  | session _ => none
  | remark entry => some entry

/-- The sessions among chapters. -/
def runs (chapters : List Chapter) : List Run := chapters.filterMap run?

/-- What the sessions were started with. -/
def begun (chapters : List Chapter) : List (String × Option Single) :=
  (runs chapters).map fun run => (run.text, run.speed)

theorem runs_append (chapters later : List Chapter) :
    runs (chapters ++ later) = runs chapters ++ runs later :=
  List.filterMap_append

theorem runs_remarks (chapters : List Chapter) (entries : List Entry) :
    runs (chapters ++ entries.map .remark) = runs chapters := by
  have hnone : runs (entries.map .remark) = [] := by
    rw [runs, List.filterMap_map, List.filterMap_eq_nil_iff]
    exact fun _ _ => rfl
  rw [runs_append, hnone, List.append_nil]

theorem begun_append (chapters later : List Chapter) :
    begun (chapters ++ later) = begun chapters ++ begun later := by
  rw [begun, runs_append, List.map_append, begun, begun]

theorem begun_remarks (chapters : List Chapter) (entries : List Entry) :
    begun (chapters ++ entries.map .remark) = begun chapters := by
  rw [begun, runs_remarks, begun]

/-- The remarks among chapters. -/
def remarks (chapters : List Chapter) : List Entry := chapters.filterMap remark?

theorem remarks_append (chapters later : List Chapter) :
    remarks (chapters ++ later) = remarks chapters ++ remarks later :=
  List.filterMap_append

theorem remarks_remarks (chapters : List Chapter) (entries : List Entry) :
    remarks (chapters ++ entries.map .remark) = remarks chapters ++ entries := by
  have hall : remarks (entries.map .remark) = entries := by
    rw [remarks, List.filterMap_map]
    exact List.filterMap_some
  rw [remarks_append, hall]

theorem remarks_session (past : List Chapter) (run : Run) :
    remarks (past ++ [.session run]) = remarks past := by
  rw [remarks_append]
  exact List.append_nil _

/-- Everything in the record is told by a session or remarked, but for the beginnings. -/
theorem mem_entries {chapters : List Chapter} {entry : Entry}
    (h : entry ∈ chapters.flatMap entries) : entry = .frame "" ∨
      (∃ run ∈ runs chapters, entry = .published (.started run.id) ∨ entry ∈ run.told) ∨
      entry ∈ remarks chapters := by
  obtain ⟨chapter, hchapter, hentry⟩ := List.mem_flatMap.mp h
  cases chapter with
  | session run =>
    have hrun : run ∈ runs chapters := List.mem_filterMap.mpr ⟨_, hchapter, rfl⟩
    obtain rfl | hentry := List.mem_cons.mp hentry
    · exact .inl rfl
    · exact .inr (.inl ⟨run, hrun, List.mem_cons.mp hentry⟩)
  | remark entry' =>
    obtain rfl := List.mem_singleton.mp hentry
    exact .inr (.inr (List.mem_filterMap.mpr ⟨_, hchapter, rfl⟩))

theorem mem_entries_of_mem_remarks {chapters : List Chapter} {entry : Entry}
    (h : entry ∈ remarks chapters) : entry ∈ chapters.flatMap entries := by
  obtain ⟨chapter, hchapter, hentry⟩ := List.mem_filterMap.mp h
  cases chapter with
  | session run => cases hentry
  | remark entry' =>
    cases hentry
    exact List.mem_flatMap.mpr ⟨_, hchapter, List.mem_singleton_self _⟩

end Chapter

theorem Act.Attentive.of_append {acts rest : List Act} (h : Attentive (acts ++ rest)) :
    Attentive rest := by
  induction acts with
  | nil => exact h
  | cons act acts ih => exact ih h.2

theorem Run.attentive_acts {σ : Type} (st : Stage σ) (hub : HubRef) (run : Run) :
    Act.Attentive (run.acts st hub) := by
  refine .append ?_ ?_
  · unfold Stance.acting
    induction st.course run.text run.speed with
    | nil => trivial
    | cons step steps ih =>
      rw [List.flatMap_cons]
      exact (Stance.attentive_acts hub st.player.config.unknownTags step.1 step.2).2.append ih
  · simp [Session.complete, Session.acts]

namespace Session

/-- What only reports that its session is cancelled. -/
def Reports (id : Nat) (s : Session) : Prop :=
  s = abandon id ∨ s = guarded id fun _ => abandon id

theorem failsTo_reports (id : Nat) (hub : HubRef) (policy : UnknownTags) (source : String)
    (tags : List Tag) (speed : Single) :
    (start id policy source tags speed).FailsTo (Reports id) (.withBuiltins hub) := by
  refine failsTo_reveal (.inl rfl) (fun effect next heffect => .inr ?_)
    (Registry.failsTo_withBuiltins hub) ..
  cases effect with
  | done reply =>
    obtain ⟨hsignals, reason, hverdict⟩ := heffect
    rw [ofLive, hsignals, if_neg (by simp [hverdict])]
    simp only [judge, hverdict]
    rfl
  | _ => cases heffect

/-- Where a session can be cancelled, it is not about to show the display. -/
theorem Silent.head?_acts {s : Session} (h : s.Silent) (r : Registry) (text : String) :
    (s.acts r).head? ≠ some (.did (.frame text)) := by
  cases s with
  | ended => simp [acts]
  | check => simp [acts]
  | _ => cases h

end Session

namespace Run
variable {σ : Type}

/-- How far the session is: it has so much before it, only reports a wait that fails, and can be
cancelled. -/
structure Stands (st : Stage σ) (hub : HubRef) (run : Run) (status : Status) : Prop where
  faces : run.Faces st hub (status.acts st.registry)
  fails : status.FailsTo (Session.Reports run.id) st.registry
  looks : status.Looks st.registry
  heeds : status.Heeds ∨ status = .ready (.complete run.id)

variable {st : Stage σ} {hub : HubRef} {run : Run} {status : Status}

theorem Stands.head?_acts (h : run.Stands st hub status) (text : String) :
    (status.acts st.registry).head? ≠ some (.did (.frame text)) := by
  cases status with
  | ready s =>
    obtain hheeds | hcomplete := h.heeds
    · exact hheeds.1.head?_acts _ text
    · cases hcomplete
      simp [Status.acts, Session.complete, Session.acts]
  | asleep seconds next =>
    rw [Status.acts, show ((next .elapsed).acts st.registry).head? = _ from h.looks]
    simp
  | ended outcome => simp [Status.acts]
  | crashed => simp [Status.acts]

theorem Stands.hushed (h : run.Stands st hub status) : status.Hushed run.id := by
  obtain hheeds | rfl := h.heeds
  · cases status with
    | ready s => exact .inr (.inl hheeds.1)
    | asleep seconds next => exact .inr (.inl hheeds.1)
    | ended => exact .inl rfl
    | crashed => exact .inl rfl
  · exact .inr (.inr rfl)

end Run

namespace Stage
variable {σ : Type}

/-- A record in chapters, for a player whose registry and configuration are those of `origin`. Every
session has told the beginning of its script, and none has stopped right before it would show the
display. -/
structure Chronicle (origin : Stage σ) (hub : HubRef) (chapters : List Chapter) (st : Stage σ) :
    Prop where
  registry : st.registry = origin.registry
  config : st.player.config = origin.player.config
  record : st.record = chapters.flatMap Chapter.entries
  numbers : (Chapter.runs chapters).map Run.id = List.range' 1 st.started
  remarks : Entry.Remarks (Chapter.remarks chapters)
  faces : ∀ run ∈ Chapter.runs chapters, ∃ rest, run.Faces origin hub rest ∧
    ∀ text, rest.head? ≠ some (.did (.frame text))

namespace Chronicle
variable {origin st st' : Stage σ} {hub : HubRef} {chapters past : List Chapter} {run : Run}

/-- A chronicle goes by the record, and by nothing that a player does besides. -/
theorem congr (h : Chronicle origin hub chapters st) (hregistry : st'.registry = st.registry)
    (hconfig : st'.player.config = st.player.config) (hstarted : st'.started = st.started)
    (hrecord : st'.record = st.record) : Chronicle origin hub chapters st' where
  registry := hregistry.trans h.registry
  config := hconfig.trans h.config
  record := hrecord.trans h.record
  numbers := hstarted ▸ h.numbers
  remarks := h.remarks
  faces := h.faces

theorem remark (h : Chronicle origin hub chapters st) (hkeeps : Keeps st st')
    {entries : List Entry} (hentries : Entry.Remarks entries)
    (hrecord : st'.record = st.record ++ entries) :
    Chronicle origin hub (chapters ++ entries.map .remark) st' where
  registry := hkeeps.registry.trans h.registry
  config := hkeeps.config.trans h.config
  record := by
    rw [hrecord, h.record, List.flatMap_append, List.flatMap_map]
    exact congrArg _ (List.flatMap_singleton' entries).symm
  numbers := by rw [Chapter.runs_remarks, hkeeps.started, h.numbers]
  remarks := by
    rw [Chapter.remarks_remarks]
    exact h.remarks.append hentries
  faces := by rw [Chapter.runs_remarks]; exact h.faces

/-- The last session has told some more. -/
theorem tell (h : Chronicle origin hub (past ++ [.session run]) st) (hkeeps : Keeps st st')
    {more : List Entry} (hrecord : st'.record = st.record ++ more) {rest : List Act}
    (hfaces : { run with told := run.told ++ more }.Faces origin hub rest)
    (hrest : ∀ text, rest.head? ≠ some (.did (.frame text))) :
    Chronicle origin hub (past ++ [.session { run with told := run.told ++ more }]) st' where
  registry := hkeeps.registry.trans h.registry
  config := hkeeps.config.trans h.config
  record := by
    rw [hrecord, h.record]
    simp [Chapter.entries]
  numbers := by
    have hnumbers := h.numbers
    rw [Chapter.runs_append, List.map_append] at hnumbers ⊢
    rw [hkeeps.started]
    exact hnumbers
  remarks := by
    have hremarks := h.remarks
    rwa [Chapter.remarks_session] at hremarks ⊢
  faces := by
    have hall := h.faces
    rw [Chapter.runs_append] at hall ⊢
    intro run' hmem
    obtain hmem | hmem := List.mem_append.mp hmem
    · exact hall run' (List.mem_append_left _ hmem)
    · cases List.mem_singleton.mp hmem
      exact ⟨rest, hfaces, hrest⟩

/-- What is fired is fired by the sessions. -/
theorem payloads_eq (h : Chronicle origin hub chapters st) :
    st.payloads hub = (Chapter.runs chapters).flatMap (Run.fired hub) := by
  have hremarks := h.remarks.isRemark
  rw [← filterMap_record, h.record, List.filterMap_flatMap]
  clear h
  induction chapters with
  | nil => rfl
  | cons chapter chapters ih =>
    cases chapter with
    | session run => exact congrArg (run.fired hub ++ ·) (ih hremarks)
    | remark entry =>
      obtain ⟨hentry, hlater⟩ := List.forall_mem_cons.mp hremarks
      have hnone : entry.payload? hub = none := by
        cases entry <;> first | rfl | cases hentry
      rw [List.flatMap_cons, ih hlater, Chapter.entries, List.filterMap_cons_none hnone]
      rfl

/-- A session that has ended otherwise than by being asked to has told everything. -/
theorem told_eq_script (h : Chronicle origin hub chapters st) (hrun : run ∈ Chapter.runs chapters)
    (hend : .published (.completed run.id) ∈ st.record)
    (hasked : .published (.skipped run.id) ∉ st.record) : run.told = run.script origin hub := by
  rw [h.record] at hend hasked
  obtain hframe | ⟨run', hrun', hstarted | htold⟩ | hremark := Chapter.mem_entries hend
  · cases hframe
  · cases hstarted
  · -- It is told by this session, for no other has its number.
    obtain ⟨rest, hfaces, -⟩ := h.faces run' hrun'
    have hid : run.id = run'.id := hfaces.id_of_told htold
    have hnodup : ((Chapter.runs chapters).map Run.id).Nodup := by
      rw [h.numbers]
      exact List.nodup_range'
    obtain rfl := List.inj_on_of_nodup_map hnodup hrun hrun' hid
    exact hfaces.told_eq_script htold
  · exact absurd (Chapter.mem_entries_of_mem_remarks (h.remarks.skipped _ hremark)) hasked

end Chronicle

/-- The last chapter is that of a session which is so far, unless the session is over. -/
def Going (origin : Stage σ) (hub : HubRef) (chapters : List Chapter) (id : Nat)
    (status : Status) : Prop :=
  status.isOver ∨ ∃ past run, chapters = past ++ [.session run] ∧ run.id = id ∧
    run.Stands origin hub status

theorem Going.hushed {origin : Stage σ} {hub : HubRef} {chapters : List Chapter} {id : Nat}
    {status : Status} (h : Going origin hub chapters id status) : status.Hushed id := by
  obtain hover | ⟨past, run, -, rfl, hstands⟩ := h
  · exact .inl hover
  · exact hstands.hushed

theorem payloads_of_deeds {st st' : Stage σ} (h : st'.deeds = st.deeds) (hub : HubRef) :
    st'.payloads hub = st.payloads hub := by
  have hdeeds (st : Stage σ) : st.deeds.filterMap (Entry.payload? hub) = st.payloads hub := by
    rw [deeds, payloads, List.filterMap_filter]
    refine List.filterMap_congr fun entry _ => ?_
    cases entry with
    | published event => cases event <;> rfl
    | _ => rfl
  rw [← hdeeds, h, hdeeds]

variable [TimeBase σ] {origin st st' : Stage σ} {hub : HubRef} {chapters past : List Chapter}
  {run : Run} {id : Nat} {status : Status} {w : Surroundings σ}

theorem drive_reports {s : Session} (h : s.Reports id) (through : Bool) (share : Nat)
    (st : Stage σ) : drive ⟨false, through⟩ s share st = (.ended .cancelled,
      (st.perform (.setState .cancelled)).perform (.publish (.cancelled id))) := by
  obtain rfl | rfl := h <;> rfl

/-- A turn that is not cancelled. -/
theorem Chronicle.resume (h : Chronicle origin hub (past ++ [.session run]) st)
    (hstands : run.Stands origin hub status) (through : Bool) :
    ∃ chapters', Chapter.begun chapters' = Chapter.begun (past ++ [.session run]) ∧
      Chronicle origin hub chapters' (resume ⟨false, through⟩ status st).2 ∧
      Going origin hub chapters' run.id (resume ⟨false, through⟩ status st).1 := by
  have hkeeps := keeps_resume ⟨false, through⟩ status st
  have hheeds : (Stage.resume ⟨false, through⟩ status st).1.Heeds := by
    obtain hheeds | rfl := hstands.heeds
    · exact (resumes_free through _ st).heeds hheeds
    · trivial
  have hgoes := goes_resume hstands.fails hstands.looks h.registry rfl through
  obtain ⟨done, hacts, htold⟩ := hstands.faces
  have hsame (more : List Entry) :
      Chapter.begun (past ++ [.session { run with told := run.told ++ more }]) =
        Chapter.begun (past ++ [.session run]) := by
    rw [Chapter.begun_append, Chapter.begun_append]
    rfl
  have hattentive : Act.Attentive (status.acts origin.registry) := by
    have hall := run.attentive_acts origin hub
    rw [hacts] at hall
    exact hall.of_append
  -- What has been told of the rest of its acts has been told of all of them.
  have hfaces {done' rest : List Act} (h' : status.acts origin.registry = done' ++ rest) :
      { run with told := run.told ++ Act.notes done' }.Faces origin hub rest := by
    refine ⟨done ++ done', ?_, ?_⟩
    · rw [List.append_assoc, ← h', ← hacts]
      rfl
    · rw [Act.notes_append, htold]
  generalize Stage.resume ⟨false, through⟩ status st = after at hkeeps hheeds hgoes
  cases hgoes with
  | stops done' hacts' hfails hlooks hrecord =>
    have hstands' : { run with told := run.told ++ Act.notes done' }.Stands origin hub _ :=
      ⟨hfaces hacts', hfails, hlooks hattentive, .inl hheeds⟩
    refine ⟨_, hsame _, h.tell hkeeps hrecord hstands'.faces hstands'.head?_acts, .inr ?_⟩
    exact ⟨past, _, rfl, rfl, hstands'⟩
  | @fails s share st' done' rest hacts' hs hlooks hrecord =>
    rw [drive_reports hs] at hkeeps ⊢
    have hreport := (keeps_perform st' (.setState .cancelled)).trans
      (keeps_perform _ (.publish (.cancelled run.id)))
    have htells := h.tell (hkeeps.of_right hreport) hrecord (hfaces hacts')
      (by simp [hlooks hattentive])
    refine ⟨_, ?_, htells.remark hreport (Entry.remarks_cancelled run.id) ?_, .inl rfl⟩
    · rw [Chapter.begun_remarks _ [_], hsame]
    · rw [record_perform, record_perform]
      exact congrArg (· ++ _) (List.append_nil _)

/-- A turn of a session that is cancelled tells nothing, unless its text is empty. -/
theorem Chronicle.resume_cancelled (h : Chronicle origin hub chapters st)
    (hgoing : Going origin hub chapters id status) (through : Bool) :
    ∃ chapters', Chapter.begun chapters' = Chapter.begun chapters ∧
      Chronicle origin hub chapters' (Stage.resume ⟨true, through⟩ status st).2 ∧
      (Stage.resume ⟨true, through⟩ status st).1.isOver := by
  obtain hover | hleaves | rfl := hgoing.hushed
  · rw [resume_of_isOver hover]
    exact ⟨chapters, rfl, h, hover⟩
  · rw [resume_leaves hleaves]
    exact ⟨chapters, rfl, h, rfl⟩
  · obtain hover | ⟨past, run, rfl, rfl, hstands⟩ := hgoing
    · cases hover
    · obtain ⟨chapters', hbegun, h', -⟩ := h.resume hstands through
      exact ⟨chapters', hbegun, h', rfl⟩

/-- The session of a ticket alone on a stage with such a record. -/
structure Playing (origin : Stage σ) (hub : HubRef) (chapters : List Chapter) (t : Ticket)
    (cancelled : Bool) (st : Stage σ) : Prop where
  chronicle : Chronicle origin hub chapters st
  job : ∃ status, st.jobs = [⟨t.id, status, cancelled⟩] ∧ Going origin hub chapters t.id status

variable {t : Ticket} {cancelled : Bool}

theorem Playing.turn (h : Playing origin hub chapters t cancelled st) (through : Bool)
    (index : Nat) : ∃ chapters',
      Chapter.begun chapters' = Chapter.begun chapters ∧
      Playing origin hub chapters' t cancelled (st.turn through index) ∧
      (cancelled → (st.turn through index).payloads hub = st.payloads hub) := by
  obtain ⟨hc, status, hjobs, hgoing⟩ := h
  cases index with
  | succ index =>
    rw [turn_lone_succ hjobs]
    exact ⟨chapters, rfl, ⟨hc, status, hjobs, hgoing⟩, fun _ => rfl⟩
  | zero =>
    rw [turn_lone hjobs]
    cases cancelled with
    | true =>
      obtain ⟨chapters', hbegun, h', hover⟩ := hc.resume_cancelled hgoing through
      refine ⟨chapters', hbegun, ⟨h'.congr rfl rfl rfl rfl, _, rfl, .inl hover⟩, fun _ => ?_⟩
      exact payloads_of_deeds (resume_hushed hgoing.hushed through st).2 hub
    | false =>
      obtain hover | ⟨past, run, rfl, hid, hstands⟩ := hgoing
      · rw [resume_of_isOver hover]
        exact ⟨chapters, rfl, ⟨hc.congr rfl rfl rfl rfl, _, rfl, .inl hover⟩, by simp⟩
      · obtain ⟨chapters', hbegun, h', hgoing⟩ := hc.resume hstands through
        rw [hid] at hgoing
        exact ⟨chapters', hbegun, ⟨h'.congr rfl rfl rfl rfl, _, rfl, hgoing⟩, by simp⟩

theorem Playing.moves (hw : ∀ r, w.registry r → r = origin.registry)
    (h : Playing origin hub chapters t cancelled st) (hm : st.Moves w st') : ∃ chapters',
      Chapter.begun chapters' = Chapter.begun chapters ∧
      Playing origin hub chapters' t cancelled st' ∧
      (cancelled → st'.payloads hub = st.payloads hub) := by
  induction hm with
  | refl => exact ⟨chapters, rfl, h, fun _ => rfl⟩
  | @tail mid _ _ hm ih =>
    obtain ⟨chapters', hbegun, h', hquiet⟩ := ih
    cases hm with
    | turn through index =>
      obtain ⟨chapters'', hbegun', h'', hquiet'⟩ := h'.turn through index
      exact ⟨chapters'', hbegun'.trans hbegun, h'', fun hc => (hquiet' hc).trans (hquiet hc)⟩
    | clock => exact ⟨chapters', hbegun, ⟨h'.chronicle.congr rfl rfl rfl rfl, h'.job⟩, hquiet⟩
    | registry hr =>
      have hsame := (hw _ hr).trans h'.chronicle.registry.symm
      exact ⟨chapters', hbegun, ⟨h'.chronicle.congr hsame rfl rfl rfl, h'.job⟩, hquiet⟩

end Stage
end TextReveal
