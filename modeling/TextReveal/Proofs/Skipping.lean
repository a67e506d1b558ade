import TextReveal.Proofs.Heeding
/-!
Skipped sessions. Wherever a session is while its player types, a skip comes to its final text and
to one completion, and nothing is seen of the session from then on.
-/
namespace TextReveal
open Number

/-- A built-in handler, or one of a style. -/
def Handler.IsStock (h : Handler) : Prop :=
  (∃ hub, h ∈ Registry.builtins hub) ∨ ∃ style, h = .markup style

def Registry.IsStock (r : Registry) : Prop := ∀ name h, r.get? name = some h → h.IsStock

theorem Handler.IsStock.showsAlike {h : Handler} (hs : h.IsStock) : h.ShowsAlike := by
  obtain ⟨hub, hmem⟩ | ⟨style, rfl⟩ := hs
  · exact showsAlike_of_mem_builtins hmem
  · exact ⟨fun ha _ => ⟨rfl, rfl, ha⟩, fun ha => ⟨rfl, rfl, ha⟩⟩

theorem Registry.isStock_withBuiltins (hub : HubRef) : (withBuiltins hub).IsStock :=
  fun name _ hget => .inl ⟨hub, mem_builtins.mpr ⟨Name.normalize name, get?_withBuiltins.mp hget⟩⟩

theorem Registry.IsStock.register {r : Registry} (hr : r.IsStock) {h : Handler} (hs : h.IsStock) :
    (r.register h).IsStock := by
  intro name h' hget
  rw [get?, Registry.register, Std.TreeMap.getElem?_insert] at hget
  split at hget
  · rwa [← Option.some.inj hget]
  · exact hr name h' hget

namespace Context.SameText
variable {a b c : Context}

theorem refl (a : Context) : a.SameText a := ⟨rfl, rfl, rfl, rfl⟩

theorem trans (h : a.SameText b) (h' : b.SameText c) : a.SameText c :=
  ⟨h.1.trans h'.1, h.2.1.trans h'.2.1, h.2.2.1.trans h'.2.2.1, h.2.2.2.trans h'.2.2.2⟩

theorem symm (h : a.SameText b) : b.SameText a :=
  ⟨h.1.symm, h.2.1.symm, h.2.2.1.symm, h.2.2.2.symm⟩

end Context.SameText

/-- Such a handler answers instant passes alike that have shown the same. -/
theorem Handler.ShowsAlike.respond {h : Handler} (hh : h.ShowsAlike) {a b : Context}
    (hab : a.SameText b) (t : Tag) :
    (Instant.respond h t a).response = (Instant.respond h t b).response ∧
      (Instant.respond h t a).context.SameText (Instant.respond h t b).context := by
  unfold Instant.respond
  split
  · exact ⟨(hh.closing hab).response, (hh.closing hab).context⟩
  -- What a live session would answer is the same as what either pass does.
  · have hlive := hh.opening (.refl a) t.parameter
    have hother := hh.opening hab t.parameter
    exact ⟨hlive.response.symm.trans hother.response, hlive.context.symm.trans hother.context⟩

/-- The speed of an instant pass, and the regions of speed around it, do not show. -/
theorem Instant.sameText_walk {r : Registry}
    (halike : ∀ name h, r.get? name = some h → h.ShowsAlike) (policy : UnknownTags)
    (chars : List Char) (position resume : Nat) (tags : List Tag) {a b : Context}
    (hab : a.SameText b) :
    (walk r policy chars position resume tags a).context.SameText
      (walk r policy chars position resume tags b).context := by
  induction chars generalizing position resume tags a b with
  | nil => exact hab
  | cons c rest ih =>
    have hlike := Context.likeness_sameText
    have hmove := hlike.move hab position
    rw [walk, walk]
    split
    · exact ih _ _ _ hab
    · cases Tag.reach position tags with
      | mk here later =>
        cases here with
        | none => exact ih _ _ _ (hlike.append hmove _)
        | some t =>
          dsimp only
          cases hget : r.get? t.name with
          -- The handler answers the same to both, and lands at the same place.
          | some h =>
            obtain ⟨hresponse, hcontext⟩ := (halike _ h hget).respond hmove t
            dsimp only
            rw [hresponse]
            exact ih _ _ _ (hlike.append hcontext _)
          | none =>
            cases policy with
            | consume => exact ih _ _ _ hmove
            | literal => exact ih _ _ _ (hlike.append hmove _)

theorem Registry.IsStock.buffer_renderInstant {r : Registry} (hr : r.IsStock)
    (policy : UnknownTags) (text : String) (tags : List Tag) (speed speed' : Single) :
    (renderInstant r policy text tags speed).context.buffer =
      (renderInstant r policy text tags speed').context.buffer := by
  have hsame := Instant.sameText_walk (fun name h hget => (hr name h hget).showsAlike) policy
    text.toList 0 0 tags (a := { source := text, speed, mode := .instant })
    (b := { source := text, speed := speed', mode := .instant }) ⟨rfl, rfl, rfl, rfl⟩
  exact hsame.2.2.2

namespace Ledger
variable {l : Ledger} {id : Nat}

/-- How often the callback of a session has run or waits to. -/
def owed (l : Ledger) (id : Nat) : Nat := l.waiting.count id + l.ran.count id

/-- A session of this number is started. -/
def launch (l : Ledger) (id : Nat) (callback : Bool) : Ledger where
  events := l.events ++ [.started id]
  state := .typing
  waiting := if callback then l.waiting ++ [id] else l.waiting
  ran := l.ran

/-- A callback that runs has waited for it. -/
theorem owed_perform (l : Ledger) (e : Effect) (id : Nat) : (l.perform e).owed id = l.owed id := by
  cases e with
  | complete session =>
    rw [perform]
    split
    · rename_i hwaits
      by_cases hid : session = id
      · have hpos : 0 < l.waiting.count session := List.count_pos_iff.mpr hwaits
        subst hid
        simp [owed, List.count_erase_self, List.count_append]
        omega
      · simp [owed, List.count_erase_of_ne (Ne.symm hid), List.count_append, hid]
    · rfl
  | _ => rfl

theorem owed_launch (l : Ledger) (started : Nat) (callback : Bool) (id : Nat) :
    (l.launch started callback).owed id =
      l.owed id + if started = id then callback.toNat else 0 := by
  cases callback with
  | false => simp [owed, launch]
  | true =>
    by_cases hid : started = id <;> simp [owed, launch, List.count_append, hid]
    omega

/-- The callback of a session has run so often, and does not wait. -/
def Spent (id n : Nat) (l : Ledger) : Prop := id ∉ l.waiting ∧ l.ran.count id = n

theorem Spent.perform {n : Nat} (h : Spent id n l) (e : Effect) : Spent id n (l.perform e) := by
  cases e with
  | complete session =>
    rw [Ledger.perform]
    split
    · rename_i hwaits
      have hne : session ≠ id := ne_of_mem_of_not_mem hwaits h.1
      exact ⟨fun hmem => h.1 (List.mem_of_mem_erase hmem), by simp [h.2, List.count_append, hne]⟩
    · exact h
  | _ => exact h

theorem Spent.launch {n started : Nat} (h : Spent id n l) (hne : id ≠ started) (callback : Bool) :
    Spent id n (l.launch started callback) := by
  cases callback with
  | false => exact h
  | true => exact ⟨by simp [Ledger.launch, h.1, hne], h.2⟩

/-- An ending that completes a session spends its callback. -/
theorem spent_ending {e : Ending} (he : e.isCompletion) (h : l.owed id ≤ 1) :
    Spent id (l.owed id) ((e.effects id).foldl Ledger.perform l) := by
  have howed : l.owed id = l.waiting.count id + l.ran.count id := rfl
  rw [perform_ending]
  by_cases hwaits : id ∈ l.waiting
  -- What waits is all that is owed, as no more than one is.
  · have hpos : 0 < l.waiting.count id := List.count_pos_iff.mpr hwaits
    rw [if_pos ⟨he, hwaits⟩, Spent, ← List.count_eq_zero, List.count_erase_self,
      List.count_append, List.count_singleton_self]
    omega
  · have hnone : l.waiting.count id = 0 := List.count_eq_zero.mpr hwaits
    rw [if_neg fun h => hwaits h.2]
    exact ⟨hwaits, by rw [howed, hnone, Nat.zero_add]⟩

end Ledger

namespace Stage
variable {σ : Type}

theorem ledger_launch (st : Stage σ) (text : String) (speed : Option Single) (callback : Bool) :
    (st.launch text speed callback).2.ledger = st.ledger.launch (st.started + 1) callback := by
  simp [Stage.launch, ledger, publish, perform, note, Stage.setState, Channel.send, Entry.ran?,
    Ledger.launch]

theorem ledger_render (st : Stage σ) (source : String) (tags : List Tag) (speed : Single) :
    (st.render source tags speed).2.ledger = st.ledger := by
  show (List.foldl signal st _).ledger = _
  generalize (renderInstant st.registry st.player.config.unknownTags source tags speed).signals =
    list
  induction list generalizing st with
  | nil => rfl
  | cons s list ih => rw [List.foldl_cons, ih, ledger_signal]

/-- What the ledger keeps through every effect and every start, the stage keeps. -/
theorem stable_ledger [TimeBase σ] {p : Nat → Ledger → Prop}
    (hperform : ∀ n l e, p n l → p n (l.perform e))
    (hlaunch : ∀ n l callback, p n l → p (n + 1) (l.launch (n + 1) callback)) :
    Stable fun st : Stage σ => p st.started st.ledger where
  turn {st} h through index := by
    cases hj : st.jobs[index]? with
    | none => simpa only [turn, hj] using h
    | some j =>
      -- Stated for all numbers at once: the relation speaks of ledgers only, not of the count.
      have hledger := resume_preserves
        (R := fun st st' : Stage σ => ∀ n, p n st.ledger → p n st'.ledger)
        (fun _ _ h => h) (fun h h' n hst => h' n (h n hst))
        (fun st e n hst => ledger_perform st e ▸ hperform n _ e hst)
        (fun st _ seconds n hst => by rwa [ledger_note _ rfl]) (fun _ _ _ hst => hst)
        ⟨j.cancelled, through⟩ j.status st _ h
      have hstarted := (keeps_resume ⟨j.cancelled, through⟩ j.status st).started
      rw [turn_eq hj]
      show p (resume _ _ st).2.started (resume _ _ st).2.ledger
      rwa [hstarted]
  clock h _ := h
  registry h _ := h
  letGo h := h
  cancelJob h _ := h
  removeJob h _ := h
  perform {st} h e := by
    rw [ledger_perform, (keeps_perform st e).started]
    exact hperform _ _ e h
  launch {st} h text speed callback := by
    rw [ledger_launch]
    exact hlaunch _ _ callback h

theorem stable_unborn [TimeBase σ] :
    Stable fun st : Stage σ => ∀ id, st.started < id → st.ledger.owed id = 0 := by
  refine stable_ledger (p := fun n l => ∀ id, n < id → l.owed id = 0) ?_ ?_
  · intro n l e h id hid
    rw [Ledger.owed_perform]
    exact h id hid
  · intro n l callback h id hid
    rw [Ledger.owed_launch, if_neg (Nat.ne_of_lt hid)]
    exact h id (Nat.lt_of_succ_lt hid)

theorem stable_owed [TimeBase σ] (id k : Nat) :
    Stable fun st : Stage σ => id ≤ st.started ∧ st.ledger.owed id = k := by
  refine stable_ledger (p := fun n l => id ≤ n ∧ l.owed id = k) ?_ ?_
  · intro n l e h
    rwa [Ledger.owed_perform]
  · intro n l callback h
    rw [Ledger.owed_launch, if_neg (by omega)]
    exact ⟨Nat.le_succ_of_le h.1, h.2⟩

theorem stable_spent [TimeBase σ] (id k : Nat) :
    Stable fun st : Stage σ => id ≤ st.started ∧ st.ledger.Spent id k := by
  refine stable_ledger (p := fun n l => id ≤ n ∧ l.Spent id k) ?_ ?_
  · exact fun n l e h => ⟨h.1, h.2.perform e⟩
  · exact fun n l callback h => ⟨Nat.le_succ_of_le h.1, h.2.launch (by omega) callback⟩

variable [TimeBase σ] {w : Surroundings σ} {start st st' begun : Stage σ} {calls : List Command}
  {t : Ticket} {status : Status} {clock : σ} {registry : Registry} {id : Nat}

/-- A session that is begun owes its callback, if it has one. -/
theorem History.owed_begun {config : Config} {hub : HubRef} {text : String}
    {speed : Option Single} {callback : Bool}
    (hnew : Stage.new? registry clock config hub = some start) (h : History w start calls st)
    (hs : Request.Steps w (.start text speed callback, st) (.done id, begun)) :
    id ≤ begun.started ∧ begun.ledger.owed id = callback.toNat := by
  have hbegin : ∀ id, start.started < id → start.ledger.owed id = 0 := by
    obtain ⟨channel, -, rfl⟩ := Option.map_eq_some_iff.mp hnew
    exact fun _ _ => rfl
  obtain ⟨before, hbefore, rfl, rfl⟩ :=
    stable_unborn.launched (stable_unborn.history hbegin h) hs
  refine ⟨Nat.le_refl _, ?_⟩
  rw [ledger_launch, Ledger.owed_launch, if_pos rfl, hbefore _ (Nat.lt_succ_self _), Nat.zero_add]

/-- A session that lapses is seen by nobody. -/
theorem moves_lapses (h : status.Lapses)
    (hm : (st.letGo clock registry [⟨id, status, true⟩]).Moves w st') :
    ∃ clock' registry' status', status'.Lapses ∧ (registry' = registry ∨ w.registry registry') ∧
      st' = st.letGo clock' registry' [⟨id, status', true⟩] := by
  obtain hleaves | rfl := h
  · obtain ⟨clock', registry', status', hleaves', hst'⟩ := moves_leaves hleaves hm
    exact ⟨clock', registry', status', .inl hleaves', hst'⟩
  · obtain ⟨clock', registry', rfl, hregistry⟩ :=
      eq_of_moves_of_over (by simp [letGo, Status.isOver]) hm
    exact ⟨clock', registry', .crashed, .inr rfl, hregistry, rfl⟩

end Stage

namespace Request
variable {σ : Type} [TimeBase σ] {w : Surroundings σ} {st : Stage σ} {t : Ticket} {status : Status}
open Stage

/-- A session that one turn ends, is waited for. -/
def AwaitsTurn (t session : Ticket) (st : Stage σ) : Prop :=
  session = t ∧ ∃ index outcome, (st.turn true index).outcome? t.id = some outcome

/-- Where a session lapses, the owner shows its end. -/
theorem ensures_skip_lapses (htyping : st.player.state = .typing)
    (hactive : st.player.active = some t) (hjobs : st.jobs = [⟨t.id, status, false⟩])
    (hlapses : status.Lapses) :
    Request.skip.Ensures w (AwaitsTurn t) (fun _ st' => ∃ clock registry,
      (registry = st.registry ∨ w.registry registry) ∧
        st' = (st.letGo clock registry []).skipTo t) st := by
  rw [Request.skip, Ensures, if_neg (fun hstill => hstill htyping)]
  simp only [Ensures, hactive]
  rw [cancelJob_eq_letGo hjobs rfl]
  intro st' hm
  obtain ⟨clock, registry, status', hlapses', hregistry, rfl⟩ := moves_lapses hlapses hm
  refine ⟨⟨rfl, ?_⟩, fun outcome houtcome => ?_⟩
  · obtain hleaves | rfl := hlapses'
    · exact ⟨0, .cancelled, by rw [turn_leaves hleaves, outcome?_letGo]; rfl⟩
    -- One that has broken down is over already: any turn will do.
    · exact ⟨1, .cancelled, by rw [turn_lone_succ rfl, outcome?_letGo]; rfl⟩
  · rw [outcome?_letGo] at houtcome
    obtain rfl := hlapses'.outcome houtcome
    rw [removeJob_letGo]
    simp only [Ensures, Option.getD_some]
    exact ensures_performAll (.frame _ :: Ending.skipped.effects t.id)
      ⟨clock, registry, hregistry, rfl⟩

/-- A session over the empty text that has not had a turn completes by itself. -/
theorem ensures_skip_blank (htyping : st.player.state = .typing)
    (hactive : st.player.active = some t)
    (hjobs : st.jobs = [⟨t.id, .ready (.complete t.id), false⟩]) :
    Request.skip.Ensures w (AwaitsTurn t) (fun _ st' => ∃ clock registry,
      (registry = st.registry ∨ w.registry registry) ∧
        st' = (Ending.completed.effects t.id).foldl Stage.perform
          (st.letGo clock registry [])) st := by
  rw [Request.skip, Ensures, if_neg (fun hstill => hstill htyping)]
  simp only [Ensures, hactive]
  rw [cancelJob_eq_letGo hjobs rfl]
  intro st' hm
  obtain ⟨clock, registry, hregistry, rfl | rfl⟩ := moves_blank hm
  · refine ⟨⟨rfl, 0, .completed, ?_⟩, fun outcome houtcome => ?_⟩
    · rw [turn_blank, outcome?_letGo]
      rfl
    · rw [outcome?_letGo] at houtcome
      cases houtcome
  · refine ⟨⟨rfl, 1, .completed, ?_⟩, fun outcome houtcome => ?_⟩
    · rw [turn_lone_succ rfl, outcome?_letGo]
      rfl
    · rw [outcome?_letGo] at houtcome
      cases houtcome
      rw [removeJob_letGo, ← foldl_perform_letGo]
      exact ⟨clock, registry, hregistry, rfl⟩

theorem ensures_halt_of_free {α : Type} {next : Bool → Request α}
    {waiting : Ticket → Stage σ → Prop} {post : α → Stage σ → Prop}
    (hfree : st.player.active = none) (hnext : (next false).Ensures w waiting post st) :
    (halt next).Ensures w waiting post st := by
  simp only [halt, Ensures, hfree]
  exact hnext

theorem ensures_skip_of_free (hfree : st.player.active = none) :
    Request.skip.Ensures w (fun _ _ => False) (fun _ st' => st' = st) st := by
  rw [Request.skip, Ensures]
  split
  · rfl
  · simp only [Ensures, hfree]

theorem ensures_join_of_free (hfree : st.player.active = none) :
    Request.join.Ensures w (fun _ _ => False) (fun _ st' => st' = st) st := by
  simp only [Request.join, Ensures, hfree]
  rw [← hfree]

/-- Without a session, calls wait for nothing, and those that start and show nothing do nothing. -/
theorem ensures_free {c : Command} (hfree : st.player.active = none) :
    c.request.Ensures w (fun _ _ => False)
      (fun _ st' => c ∈ [.skip, .stop, .join] → st' = st) st := by
  cases c with
  | skip => exact (ensures_skip_of_free hfree).mono fun _ _ hsame _ => hsame
  | join => exact (ensures_join_of_free hfree).mono fun _ _ hsame _ => hsame
  | stop =>
    exact Command.ensures_of_cancels rfl fun _ hnext =>
      ensures_halt_of_free hfree (hnext false st fun _ _ => rfl)
  | start =>
    exact Command.ensures_of_cancels rfl fun _ hnext =>
      ensures_halt_of_free hfree (hnext false st fun _ hquiet => by simp at hquiet)
  | setInstant =>
    exact Command.ensures_of_cancels rfl fun _ hnext =>
      ensures_halt_of_free hfree (hnext false st fun _ hquiet => by simp at hquiet)

end Request

namespace Stage
variable {σ : Type}

theorem view_foldl_perform (st : Stage σ) (effects : List Effect) :
    (effects.foldl perform st).view = effects.foldl View.after st.view := by
  induction effects generalizing st with
  | nil => rfl
  | cons e effects ih => rw [List.foldl_cons, ih, view_perform, List.foldl_cons]

theorem display_ending (st : Stage σ) (id : Nat) (e : Ending) :
    ((e.effects id).foldl perform st).display = st.display := by
  have hview := congrArg View.shown (view_foldl_perform st (e.effects id))
  refine hview.trans ?_
  cases e <;> rfl

theorem state_ending (st : Stage σ) (id : Nat) (e : Ending) :
    ((e.effects id).foldl perform st).player.state = e.state := by
  rw [state_foldl_perform]
  cases e <;> rfl

variable [TimeBase σ] {w : Surroundings σ} {start st : Stage σ} {calls : List Command} {t : Ticket}
  {clock : σ} {registry : Registry} {n : Nat}

theorem History.eq_of_free (hjobs : start.jobs = []) (hfree : start.player.active = none)
    (h : History w start calls st) (hcalls : ∀ c ∈ calls, c ∈ [Command.skip, .stop, .join]) :
    ∃ clock registry, st = { start with clock, registry } := by
  induction h with
  | begin => exact ⟨start.clock, start.registry, rfl⟩
  | move _ hm ih =>
    obtain ⟨clock, registry, rfl⟩ := ih hcalls
    obtain ⟨clock', registry', rfl, -⟩ :=
      eq_of_moves_of_over (by simp [hjobs]) (.single hm)
    exact ⟨clock', registry', rfl⟩
  | @call calls st st' _ c answer hs ih =>
    obtain ⟨clock, registry, rfl⟩ := ih fun c hc => hcalls c (List.mem_append_left _ hc)
    have hstill : ({ start with clock, registry } : Stage σ).player.active = none := hfree
    have hsame := (Request.ensures_free (c := c) hstill).steps hs
    exact ⟨clock, registry, hsame (hcalls c (by simp))⟩

/-- Without a session nothing more is seen until one is started or a text is shown. -/
theorem Seen.journal_of_free (hjobs : start.jobs = []) (hfree : start.player.active = none)
    (h : Seen w start calls st) (hcalls : ∀ c ∈ calls, c ∈ [Command.skip, .stop, .join]) :
    st.journal = start.journal := by
  obtain h | ⟨before, c, session, next, h, hs⟩ := h
  · obtain ⟨clock, registry, rfl⟩ := h.eq_of_free hjobs hfree hcalls
    rfl
  · obtain ⟨clock, registry, rfl⟩ := h.eq_of_free hjobs hfree hcalls
    have hstill : ({ start with clock, registry } : Stage σ).player.active = none := hfree
    have hwaits := (Request.ensures_free (c := c) hstill).steps hs st .refl
    exact hwaits.1.elim

/-- What is left of a session that was skipped: its final text, and its callback, which has run `n`
times and does not run again. Nothing is shown until the owner starts a session or shows a text. -/
structure Skipped (t : Ticket) (n : Nat) (st : Stage σ) : Prop where
  shown : st.display = (st.finalText t.source).1
  state : st.player.state = .completed
  callback : st.journal.toList.count (.completed t.id) = n
  later : ∀ (w : Surroundings σ) calls after, st.Seen w calls after →
    after.journal.toList.count (.completed t.id) = n ∧
      ((∀ c ∈ calls, c ∈ [Command.skip, .stop, .join]) → after.journal = st.journal)

theorem skipped_of_spent (hjobs : st.jobs = []) (hfree : st.player.active = none)
    (hstarted : t.id ≤ st.started) (hspent : st.ledger.Spent t.id n)
    (hshown : st.display = (st.finalText t.source).1) (hstate : st.player.state = .completed) :
    Skipped t n st where
  shown := hshown
  state := hstate
  callback := (count_completed _ _).trans hspent.2
  later w calls after hseen := by
    have hlater := (stable_spent t.id n).seen ⟨hstarted, hspent⟩ hseen
    exact ⟨(count_completed _ _).trans hlater.2.2, hseen.journal_of_free hjobs hfree⟩

theorem skipped_skipTo (hstock : registry.IsStock) (htags : t.tags = Tag.lex t.source)
    (hstarted : t.id ≤ st.started) (howed : st.ledger.owed t.id ≤ 1) :
    Skipped t (st.ledger.owed t.id) ((st.letGo clock registry []).skipTo t) := by
  have hkeeps := keeps_skipTo (st.letGo clock registry []) t
  refine skipped_of_spent hkeeps.jobs hkeeps.active ?_ ?_ ?_ ?_
  · exact hstarted.trans (Nat.le_of_eq hkeeps.started.symm)
  · rw [skipTo, List.foldl_cons, ledger_foldl_perform, ledger_perform, ledger_render]
    exact Ledger.spent_ending (e := .skipped) rfl howed
  · have hfinal : ((st.letGo clock registry []).skipTo t).display =
        (renderInstant registry st.player.config.unknownTags t.source t.tags
          t.speed).context.buffer := by
      rw [skipTo, List.foldl_cons, display_ending]
      exact congrArg View.shown (view_perform _ (.frame _))
    -- The owner has shown the text at the speed of the session, not at the default one.
    rw [hfinal, finalText, Stage.render, hkeeps.registry, hkeeps.config, htags]
    exact hstock.buffer_renderInstant ..
  · rw [skipTo, List.foldl_cons, state_ending]
    rfl

theorem skipped_blank (hsource : t.source = "") (hdisplay : st.display = "")
    (hstarted : t.id ≤ st.started) (howed : st.ledger.owed t.id ≤ 1) :
    Skipped t (st.ledger.owed t.id)
      ((Ending.completed.effects t.id).foldl perform (st.letGo clock registry [])) := by
  have hkeeps := keeps_foldl_perform (st.letGo clock registry []) (Ending.completed.effects t.id)
  refine skipped_of_spent hkeeps.jobs hkeeps.active ?_ ?_ ?_ ?_
  · exact hstarted.trans (Nat.le_of_eq hkeeps.started.symm)
  · rw [ledger_foldl_perform]
    exact Ledger.spent_ending (e := .completed) rfl howed
  · rw [display_ending, hsource]
    exact hdisplay
  · rw [state_ending]
    rfl

/-- Wherever the session is, the skip that waits for it comes to the same end. -/
theorem ensures_skip_skipped {status : Status} (hactive : st.player.active = some t)
    (htyping : st.player.state = .typing) (hjobs : st.jobs = [⟨t.id, status, false⟩])
    (hstatus : status.Lapses ∨ t.source = "" ∧ status = .ready (.complete t.id) ∧ st.display = "")
    (hstock : st.registry.IsStock) (hw : ∀ r, w.registry r → r.IsStock)
    (htags : t.tags = Tag.lex t.source) (hstarted : t.id ≤ st.started)
    (howed : st.ledger.owed t.id ≤ 1) :
    Request.skip.Ensures w (Request.AwaitsTurn t)
      (fun _ st' => Skipped t (st.ledger.owed t.id) st') st := by
  obtain hlapses | ⟨hsource, rfl, hdisplay⟩ := hstatus
  · refine (Request.ensures_skip_lapses htyping hactive hjobs hlapses).mono ?_
    rintro - _ ⟨clock, registry, hregistry, rfl⟩
    have hnow : registry.IsStock := hregistry.elim (fun heq => heq ▸ hstock) (hw registry)
    exact skipped_skipTo hnow htags hstarted howed
  · refine (Request.ensures_skip_blank htyping hactive hjobs).mono ?_
    rintro - _ ⟨clock, registry, -, rfl⟩
    exact skipped_blank hsource hdisplay hstarted howed

/-- What is known of a session that its owner holds while the player types. -/
theorem History.held_of_typing {config : Config} {hub : HubRef}
    (hnew : Stage.new? registry clock config hub = some start) (h : History w start calls st)
    (hactive : st.player.active = some t) (htyping : st.player.state = .typing) :
    ∃ earlier speed callback, calls = earlier ++ [.start t.source speed callback] ∧
      t.tags = Tag.lex t.source ∧ t.id ≤ st.started ∧ st.ledger.owed t.id = callback.toNat ∧
      ∃ status, st.jobs = [⟨t.id, status, false⟩] ∧
        (status.Lapses ∨ t.source = "" ∧ status = .ready (.complete t.id) ∧ st.display = "") := by
  have hfree : start.player.active = none := by
    obtain ⟨channel, -, rfl⟩ := Option.map_eq_some_iff.mp hnew
    rfl
  obtain ⟨earlier, speed, callback, before, begun, hcalls, hearlier, hs, hbegun, hmoves⟩ :=
    h.begun_of_typing (told_of_new? hnew) hfree hactive htyping
  have howed := (stable_owed t.id callback.toNat).moves (hearlier.owed_begun hnew hs) hmoves
  obtain ⟨empty, hempty, -, rfl⟩ := hearlier.launched hnew hs
  have hticket := Option.some.inj hbegun
  have hheld := held_launch hempty t.source speed callback
  rw [hticket] at hheld
  refine ⟨earlier, speed, callback, hcalls, congrArg Ticket.tags hticket.symm, howed.1, howed.2, ?_⟩
  cases h.told (told_of_new? hnew) with
  | rests _ hnone => rw [hnone] at hactive; cases hactive
  | @plays t' status hattends hactive' =>
    obtain rfl := Option.some.inj (hactive.symm.trans hactive')
    exact ⟨status, hattends.jobs, (hheld.moves hmoves).lapses hattends htyping⟩

end Stage

/-- A skip finishes a session once and with the right text. Whatever calls came before, whatever
their handlers did and wherever the session has got to: while the player types, its owner has begun
the session that it holds with the last call. By handlers that are built in or of a style, the skip
returns, however the registry changes meanwhile, with the final text shown and the callback run. -/
theorem Stage.History.skips {σ : Type} [TimeBase σ] {w w' : Surroundings σ} {registry : Registry}
    {clock : σ} {config : Config} {hub : HubRef} {start st : Stage σ} {calls : List Command}
    {t : Ticket} (hnew : Stage.new? registry clock config hub = some start)
    (h : History w start calls st) (hactive : st.player.active = some t)
    (htyping : st.player.state = .typing) (hstock : st.registry.IsStock)
    (hw : ∀ r, w'.registry r → r.IsStock) :
    ∃ earlier speed callback, calls = earlier ++ [.start t.source speed callback] ∧
      (∀ request mid, Request.Steps w' (Request.skip, st) (request, mid) →
        ∃ answer st', Request.Steps w' (request, mid) (.done answer, st')) ∧
      ∀ answer st', Request.Steps w' (Request.skip, st) (.done answer, st') →
        Skipped t callback.toNat st' := by
  obtain ⟨earlier, speed, callback, hcalls, htags, hstarted, howed, status, hjobs, hstatus⟩ :=
    h.held_of_typing hnew hactive htyping
  have honce : st.ledger.owed t.id ≤ 1 := howed ▸ callback.toNat_le
  have hensures := ensures_skip_skipped hactive htyping hjobs hstatus hstock hw htags hstarted honce
  rw [howed] at hensures
  refine ⟨earlier, speed, callback, hcalls, fun request mid hs => ?_, fun answer st' hs => ?_⟩
  · refine (hensures.steps hs).exists_steps ?_
    rintro session mid' ⟨rfl, index, outcome, houtcome⟩
    exact ⟨true, index, outcome, houtcome⟩
  · have hends := hensures.steps hs
    exact hends

/-- A session that rests behind its first character, skipped when a style has come to be known. -/
theorem Stage.History.skips_of_restyled :
    ∃ (start st st' : Stage Clock) (t : Ticket),
      Stage.new? (.withBuiltins .own) {} {} .own = some start ∧
      History ⟨fun _ => True, Registry.IsStock⟩ start [.start "a[x]b" none true] st ∧
      st.player.active = some t ∧ st.player.state = .typing ∧ st.registry.IsStock ∧
      st.display = "a" ∧
      Request.Steps ⟨fun _ => True, Registry.IsStock⟩ (Request.skip, st) (.done true, st') ∧
      st'.display = "a<x>b" ∧ Skipped t 1 st' := by
  have hrun : ((Stage.new? (.withBuiltins .own) ({} : Clock) {} .own).bind fun start =>
      ((Request.start "a[x]b" none true).run? start).bind fun begun =>
        (Request.skip.run? { begun.2.turn false 0 with
          registry := (Registry.withBuiltins .own).register (.markup "x") }).bind fun skipped =>
            (begun.2.turn false 0).player.active.map fun _ =>
              ((begun.2.turn false 0).player.state, (begun.2.turn false 0).display, skipped.1,
                skipped.2.display)) =
      some (.typing, "a", true, "a<x>b") := by
    decide +kernel
  simp only [Option.bind_eq_some_iff, Option.map_eq_some_iff, Prod.mk.injEq] at hrun
  obtain ⟨start, hnew, ⟨id, begun⟩, hbegun, ⟨answer, st'⟩, hskip, t, hactive, htyping, hbefore, rfl,
    hshown⟩ := hrun
  have hstock : ((Registry.withBuiltins .own).register (.markup "x")).IsStock :=
    (Registry.isStock_withBuiltins .own).register (.inr ⟨"x", rfl⟩)
  have hhistory : History ⟨fun _ => True, Registry.IsStock⟩ start [.start "a[x]b" none true]
      { begun.turn false 0 with
        registry := (Registry.withBuiltins .own).register (.markup "x") } :=
    ((History.begin.call (.start "a[x]b" none true) (Request.steps_of_run? _ hbegun)).move
      (.turn false 0 begun)).move (.registry hstock)
  have hsteps := Request.steps_of_run? ⟨fun _ => True, Registry.IsStock⟩ hskip
  have hstocked : ∀ r, (⟨fun _ => True, Registry.IsStock⟩ : Surroundings Clock).registry r →
      r.IsStock := fun _ hr => hr
  obtain ⟨earlier, speed, callback, hcalls, -, hskipped⟩ :=
    History.skips hnew hhistory hactive htyping hstock hstocked
  have hlast : some (Command.start "a[x]b" none true) = some (.start t.source speed callback) := by
    simpa using congrArg List.getLast? hcalls
  obtain ⟨-, -, rfl⟩ := Command.start.inj (Option.some.inj hlast)
  exact ⟨start, _, st', t, hnew, hhistory, hactive, htyping, hstock, hbefore, hsteps, hshown,
    hskipped true st' hsteps⟩

end TextReveal
