import TextReveal.Proofs.Acts
import TextReveal.Proofs.Rendering
/-!
The score of a text: what a live session over the built-in handlers does in each step of its loop.
The loop takes a text unit by unit. A unit is a tag that is handled or swallowed, or else a single
character.
-/
namespace TextReveal
open Number

/-- The speed in force, and the speeds to return to, the innermost region's first. -/
structure Tempo where
  speed : Single
  saved : List Single := []
  deriving DecidableEq, Repr

/-- A bad parameter changes no speed, but it opens a region all the same. -/
def Tempo.after (tempo : Tempo) (t : Tag) : Tempo :=
  let speed := (Handler.seconds? t.parameter).getD tempo.speed
  if t.name = "speed" then { tempo with speed }
  else if t.name = "speedregion" then
    if t.closing then
      match tempo.saved with
      | speed :: saved => { speed, saved }
      | [] => tempo
    else { speed, saved := tempo.speed :: tempo.saved }
  else tempo

def Context.tempo (ctx : Context) : Tempo := ⟨ctx.speed, ctx.savedSpeeds⟩

namespace Tag

/-- How long a tag holds a text up, if it does. -/
def pause? (t : Tag) : Option Single :=
  if t.name = "pause" then (Handler.seconds? t.parameter).filter (·.isPositive) else none

/-- What a built-in handler does at a tag before the display is shown again. -/
def acts (hub : HubRef) (t : Tag) : List Act :=
  if t.name = "pause" then .looked :: t.pause?.toList.map .asked ++ [.looked]
  else if t.name = "action" then [.did (.signal (.action hub t.parameter))]
  else []

end Tag

/-- Whether the loop takes a tag as a whole: somebody handles it, or else it is swallowed. -/
def Registry.takes (r : Registry) (policy : UnknownTags) (t : Tag) : Bool :=
  r.has t.name || policy == .consume

namespace Piece

/-- What the loop makes one step for each. -/
def units (takes : Tag → Bool) : Piece → List Piece
  | plain c => [plain c]
  | tag t => if takes t then [tag t] else t.fullText.toList.map plain

end Piece

/-- Where the loop is before one of its steps. -/
structure Stance where
  steps : Nat
  position : Nat
  tempo : Tempo
  shown : String
  deriving DecidableEq, Repr

namespace Stance
variable (hub : HubRef) (policy : UnknownTags)

def after (s : Stance) (p : Piece) : Stance where
  steps := s.steps + 1
  position := s.position + Text.width p.chars
  tempo := match p with
    | .plain _ => s.tempo
    | .tag t => s.tempo.after t
  shown := if p.isClear then "" else s.shown ++ p.shown policy

/-- One step of the loop. -/
def acts (s : Stance) (p : Piece) : List Act :=
  Session.turnActs (s.steps + 1) s.tempo.speed ++ match p with
    | .plain c => .did (.publish (.revealed c.toString s.position)) ::
        .did (.frame (s.after policy p).shown) :: Session.delayActs s.tempo.speed
    | .tag t => t.acts hub ++ [.did (.frame (s.after policy p).shown)]

/-- The steps of the loop over these units. -/
def rounds (s : Stance) : List Piece → List (List Act)
  | [] => []
  | p :: rest => s.acts hub policy p :: (s.after policy p).rounds rest

end Stance

def Context.stance (ctx : Context) (steps position : Nat) : Stance :=
  ⟨steps, position, ctx.tempo, ctx.buffer⟩

namespace Registry

theorem liveReply_of_untimed {h : Handler} (hlive : h.live = none) (t : Tag) (ctx : Context) :
    Session.liveReply h t ctx = Instant.respond h t ctx := by
  rw [Session.liveReply, Handler.openLive, hlive]
  rfl

/-- Built-in handlers answer a session as they answer an instant pass. -/
theorem IsBuiltin.liveReply_eq {hub : HubRef} {name : String} {h : Handler}
    (hb : IsBuiltin hub name h) (t : Tag) (ctx : Context) :
    Session.liveReply h t ctx = Instant.respond h t ctx := by
  cases hb with
  | pause =>
    rw [Session.liveReply, Instant.respond]
    split
    · rfl
    · exact Handler.settled_openLive_pause ctx t.parameter
  | _ => exact liveReply_of_untimed rfl t ctx

end Registry

/-- A reply that is not visible, lets the session go on, and sets the tempo by the tag. -/
structure Reply.Obeys (t : Tag) (ctx : Context) (reply : Reply) : Prop where
  goesOn : reply.verdict.breaksOff = false
  quiet : reply.response.isVisible = false
  mode : reply.context.mode = ctx.mode
  tempo : reply.context.tempo = ctx.tempo.after t

/-- Tags of other names leave the tempo alone. -/
theorem Reply.obeys_of_ne {t : Tag} {ctx : Context} {reply : Reply} (hspeed : t.name ≠ "speed")
    (hregion : t.name ≠ "speedregion") (hgoesOn : reply.verdict.breaksOff = false)
    (hquiet : reply.response.isVisible = false) (hmode : reply.context.mode = ctx.mode)
    (htempo : reply.context.tempo = ctx.tempo) : reply.Obeys t ctx where
  goesOn := hgoesOn
  quiet := hquiet
  mode := hmode
  tempo := by simp only [htempo, Tempo.after, if_neg hspeed, if_neg hregion]

namespace Handler

theorem obeys_withSeconds {name : String} {t : Tag} {ctx ctx' : Context} {next : Single → Reply}
    (hmode : ctx'.mode = ctx.mode)
    (hbad : seconds? t.parameter = none → ctx'.tempo = ctx.tempo.after t)
    (hnext : ∀ s, seconds? t.parameter = some s → (next s).Obeys t ctx) :
    (withSeconds name t.parameter ctx' next).Obeys t ctx := by
  unfold withSeconds
  cases hs : seconds? t.parameter with
  | some s => exact hnext s hs
  | none => exact ⟨rfl, rfl, hmode, hbad hs⟩

theorem signals_withSeconds {name parameter : String} {ctx : Context} {next : Single → Reply}
    (hnext : ∀ s, (next s).signals = []) : (withSeconds name parameter ctx next).signals = [] := by
  unfold withSeconds
  split
  · exact hnext _
  · rfl

theorem acts_openLive_pause (ctx : Context) {t : Tag} (hname : t.name = "pause") :
    (pause.openLive ctx t.parameter).acts = t.pause?.toList.map .asked ++ [.looked] := by
  simp only [openLive, pause, Tag.pause?, if_pos hname]
  cases hs : seconds? t.parameter with
  | none => rfl
  | some s =>
    by_cases hpositive : s.isPositive
    · simp [hpositive, Option.filter, LiveEffect.acts, Reply.answer]
    · simp [hpositive, Option.filter, LiveEffect.acts, Reply.answer]

end Handler

namespace Registry
variable {hub : HubRef} {t : Tag} {h : Handler}

theorem IsBuiltin.obeys (hb : IsBuiltin hub t.name h) (ctx : Context) :
    (Instant.respond h t ctx).Obeys t ctx := by
  -- Only `speed` and `speedregion` change the tempo, and they do as `Tempo.after` says.
  cases hb with
  | markup hm =>
    have hspeed : t.name ≠ "speed" := ne_of_mem_of_not_mem hm (by decide)
    have hregion : t.name ≠ "speedregion" := ne_of_mem_of_not_mem hm (by decide)
    unfold Instant.respond
    split
    · exact Reply.obeys_of_ne hspeed hregion rfl rfl rfl rfl
    · exact Reply.obeys_of_ne hspeed hregion rfl rfl rfl rfl
  | lineBreak hm =>
    rw [Instant.respond_of_not_isRegion rfl]
    exact Reply.obeys_of_ne (ne_of_mem_of_not_mem hm (by decide))
      (ne_of_mem_of_not_mem hm (by decide)) rfl rfl rfl rfl
  | speed hm =>
    rw [Instant.respond_of_not_isRegion rfl, Handler.opening_speed]
    refine Handler.obeys_withSeconds rfl ?_ ?_
    · intro hs
      simp [Tempo.after, hm, hs, Context.tempo]
    · intro s hs
      refine ⟨rfl, rfl, rfl, ?_⟩
      simp [Tempo.after, hm, hs, Context.tempo, Handler.setSpeed, Reply.answer]
  | speedRegion hm =>
    rw [Instant.respond, Tag.closes, show Handler.speedRegion.isRegion = true from rfl,
      Bool.and_true]
    by_cases hclosing : t.closing
    · rw [if_pos hclosing]
      simp only [Handler.speedRegion]
      split <;> rename_i hsaved
      · refine ⟨rfl, rfl, rfl, ?_⟩
        simp [Tempo.after, hm, hclosing, hsaved, Context.tempo, Reply.answer]
      · refine ⟨rfl, rfl, rfl, ?_⟩
        simp [Tempo.after, hm, hclosing, hsaved, Context.tempo, Reply.answer]
    · rw [if_neg hclosing, Handler.opening_speedRegion]
      refine Handler.obeys_withSeconds ?_ ?_ ?_
      · rfl
      · intro hs
        simp [Tempo.after, hm, hs, hclosing, Context.tempo]
      · intro s hs
        refine ⟨rfl, rfl, rfl, ?_⟩
        simp [Tempo.after, hm, hs, hclosing, Context.tempo, Handler.setSpeed, Reply.answer]
  | pause hm =>
    have hobeys : (Reply.answer ctx .invisible).Obeys t ctx :=
      Reply.obeys_of_ne (by simp [hm]) (by simp [hm]) rfl rfl rfl rfl
    rw [Instant.respond_of_not_isRegion rfl, Handler.opening_pause]
    exact Handler.obeys_withSeconds rfl (fun _ => hobeys.tempo) fun _ _ => hobeys
  | clear hm =>
    rw [Instant.respond_of_not_isRegion rfl]
    exact Reply.obeys_of_ne (by simp [hm]) (by simp [hm]) rfl rfl rfl rfl
  | action hm =>
    rw [Instant.respond_of_not_isRegion rfl]
    exact Reply.obeys_of_ne (by simp [hm]) (by simp [hm]) rfl rfl rfl rfl

/-- An untimed handler that signals nothing. -/
theorem tagActs_of_quiet (hpause : t.name ≠ "pause") (haction : t.name ≠ "action")
    (hlive : h.live = none) {ctx : Context} (hopening : (h.opening ctx t.parameter).signals = [])
    (hclosing : (h.closing ctx).signals = []) : Session.tagActs h t ctx = t.acts hub := by
  simp [Session.tagActs, Handler.isTimed, hlive, hopening, hclosing, Tag.acts, hpause, haction]

theorem IsBuiltin.tagActs_eq (hb : IsBuiltin hub t.name h) {ctx : Context}
    (hmode : ctx.mode = .live) : Session.tagActs h t ctx = t.acts hub := by
  cases hb with
  | markup hm =>
    exact tagActs_of_quiet (ne_of_mem_of_not_mem hm (by decide))
      (ne_of_mem_of_not_mem hm (by decide)) rfl rfl rfl
  | lineBreak hm =>
    exact tagActs_of_quiet (ne_of_mem_of_not_mem hm (by decide))
      (ne_of_mem_of_not_mem hm (by decide)) rfl rfl rfl
  | speed hm =>
    refine tagActs_of_quiet (by simp [hm]) (by simp [hm]) rfl ?_ rfl
    rw [Handler.opening_speed]
    exact Handler.signals_withSeconds fun _ => rfl
  | speedRegion hm =>
    refine tagActs_of_quiet (by simp [hm]) (by simp [hm]) rfl ?_ ?_
    · rw [Handler.opening_speedRegion]
      exact Handler.signals_withSeconds fun _ => rfl
    · simp only [Handler.speedRegion]
      split <;> rfl
  | clear hm => exact tagActs_of_quiet (by simp [hm]) (by simp [hm]) rfl rfl rfl
  | action hm =>
    simp [Session.tagActs, Tag.closes, Handler.action, Handler.isTimed, Tag.acts, hm, hmode]
  | pause hm =>
    have hopens : t.closes .pause = false := Bool.and_false _
    rw [Session.tagActs, hopens, Handler.acts_openLive_pause ctx hm, Tag.acts, if_pos hm]
    rfl

end Registry

namespace Session
variable {id : Nat} {policy : UnknownTags} {position steps : Nat} {ctx : Context}

/-- A character at which nothing is handled or swallowed. -/
theorem acts_reveal_plain {r : Registry} (hub : HubRef) {c : Char} {rest : List Char}
    {tags later : List Tag} {here : Option Tag} (hreach : Tag.reach position tags = (here, later))
    (hhere : ∀ t ∈ here, r.get? t.name = none ∧ policy = .literal) :
    (reveal id policy (c :: rest) position position steps tags ctx).acts r =
      (ctx.stance steps position).acts hub policy (.plain c) ++
        (reveal id policy rest (position + c.utf8Size) (position + c.utf8Size) (steps + 1) later
          (ctx.spell position [c])).acts r := by
  have hchar : (showChar id position c { ctx with cursor := position }
      (reveal id policy rest (position + c.utf8Size) (position + c.utf8Size) (steps + 1)
        later)).acts r = _ := acts_showChar
  rw [reveal, if_neg (Nat.lt_irrefl _), acts_turn, hreach, Stance.acts, List.append_assoc]
  congr 1
  cases here with
  | none => exact hchar
  | some t =>
    obtain ⟨hnobody, rfl⟩ := hhere t rfl
    simp only [acts, hnobody]
    exact hchar

theorem mode_spell (position : Nat) (cs : List Char) (ctx : Context) :
    (ctx.spell position cs).mode = ctx.mode := by
  induction cs generalizing position ctx with
  | nil => rfl
  | cons c cs ih => exact ih _ _

theorem stance_spell (policy : UnknownTags) (cs : List Char) :
    (ctx.spell position cs).stance (steps + cs.length) (position + Text.width cs) =
      (cs.map Piece.plain).foldl (Stance.after policy) (ctx.stance steps position) := by
  induction cs generalizing position steps ctx with
  | nil => rfl
  | cons c cs ih =>
    rw [List.map_cons, List.foldl_cons, Text.width, ← Nat.add_assoc, List.length_cons,
      Nat.add_comm cs.length, ← Nat.add_assoc]
    exact ih

/-- Characters before the next tag. -/
theorem acts_reveal_spell {r : Registry} (hub : HubRef) (cs tail : List Char) {tags : List Tag}
    (h : ∀ t ∈ tags, position + Text.width cs ≤ t.start) :
    (reveal id policy (cs ++ tail) position position steps tags ctx).acts r =
      ((ctx.stance steps position).rounds hub policy (cs.map .plain)).flatten ++
        (reveal id policy tail (position + Text.width cs) (position + Text.width cs)
          (steps + cs.length) tags (ctx.spell position cs)).acts r := by
  induction cs generalizing position steps ctx with
  | nil => rfl
  | cons c cs ih =>
    have hc := c.utf8Size_pos
    simp only [Text.width, ← Nat.add_assoc, List.length_cons] at h ⊢
    have hreach : Tag.reach position tags = (none, tags) := by
      apply Tag.reach_of_lt
      intro t ht
      have := h t ht
      omega
    rw [List.cons_append, acts_reveal_plain hub hreach (by simp), ih h, List.map_cons,
      Stance.rounds, List.flatten_cons, List.append_assoc, Nat.add_right_comm steps]
    rfl

/-- Characters before the place where the loop goes on are passed over. -/
theorem reveal_skip {cs tail : List Char} {resume : Nat} {tags : List Tag}
    (h : position + Text.width cs ≤ resume) :
    reveal id policy (cs ++ tail) position resume steps tags ctx =
      reveal id policy tail (position + Text.width cs) resume steps tags ctx := by
  induction cs generalizing position with
  | nil => rfl
  | cons c cs ih =>
    have hc := c.utf8Size_pos
    rw [Text.width, ← Nat.add_assoc] at h ⊢
    rw [List.cons_append, reveal, if_pos (by omega), ih h]

end Session

theorem Stance.rounds_append (hub : HubRef) (policy : UnknownTags) (s : Stance)
    (units rest : List Piece) :
    s.rounds hub policy (units ++ rest) =
      s.rounds hub policy units ++ (units.foldl (after policy) s).rounds hub policy rest := by
  induction units generalizing s with
  | nil => rfl
  | cons p units ih => rw [List.cons_append, rounds, ih, rounds, List.cons_append, List.foldl_cons]

theorem Registry.takes_iff {r : Registry} {policy : UnknownTags} {t : Tag} :
    r.takes policy t ↔ (r.get? t.name).isSome ∨ policy = .consume := by
  simp [takes, has, get?]

theorem Registry.not_takes_iff {r : Registry} {policy : UnknownTags} {t : Tag} :
    ¬r.takes policy t ↔ r.get? t.name = none ∧ policy = .literal := by
  cases policy <;> simp [takes_iff]

/-- At such a tag nothing happens, and the tempo is as before. -/
structure Tag.Idle (hub : HubRef) (t : Tag) : Prop where
  acts : t.acts hub = []
  pause? : t.pause? = none
  tempo (tempo : Tempo) : tempo.after t = tempo

/-- A tag that nobody handles changes nothing but what is shown. -/
theorem Tag.idle_of_get?_eq_none {hub : HubRef} {t : Tag}
    (hplain : Name.normalize t.name = t.name)
    (hget : (Registry.withBuiltins hub).get? t.name = none) (policy : UnknownTags) :
    t.Idle hub ∧ (Piece.tag t).isClear = false ∧ (Piece.tag t).shown policy =
      match policy with
      | .consume => ""
      | .literal => t.fullText := by
  have hnone (h : Handler) : ¬Registry.IsBuiltin hub t.name h := by
    intro hb
    rw [← hplain] at hb
    rw [Registry.get?_withBuiltins.mpr hb] at hget
    cases hget
  have hpause : t.name ≠ "pause" := fun hn => hnone _ (.pause hn)
  have haction : t.name ≠ "action" := fun hn => hnone _ (.action hn)
  have hspeed : t.name ≠ "speed" := fun hn => hnone _ (.speed hn)
  have hregion : t.name ≠ "speedregion" := fun hn => hnone _ (.speedRegion hn)
  refine ⟨⟨?_, ?_, ?_⟩, Piece.shown_of_not_isBuiltin hnone policy⟩
  · rw [acts, if_neg hpause, if_neg haction]
  · rw [pause?, if_neg hpause]
  · intro tempo
    rw [Tempo.after, if_neg hspeed, if_neg hregion]

namespace Session
variable {id : Nat} {hub : HubRef} {policy : UnknownTags} {position steps : Nat} {ctx : Context}

/-- A tag that the loop takes as a whole. -/
theorem acts_reveal_tag {t : Tag} {tail : List Char} {later : List Tag}
    (hlies : t.Lies position) (htakes : (Registry.withBuiltins hub).takes policy t)
    (hmode : ctx.mode = .live) :
    ∃ ctx' : Context, ctx'.mode = .live ∧
      ctx'.stance (steps + 1) t.stop = (ctx.stance steps position).after policy (.tag t) ∧
      (reveal id policy (t.fullText.toList ++ tail) position position steps (t :: later) ctx).acts
          (.withBuiltins hub) =
        (ctx.stance steps position).acts hub policy (.tag t) ++
          (reveal id policy tail t.stop t.stop (steps + 1) later ctx').acts
            (.withBuiltins hub) := by
  obtain ⟨c, cs, hchars, hwidth⟩ := hlies.exists_chars
  have hskip (ctx : Context) :
      reveal id policy (cs ++ tail) (position + c.utf8Size) t.stop (steps + 1) later ctx =
        reveal id policy tail t.stop t.stop (steps + 1) later ctx := by
    rw [reveal_skip (Nat.le_of_eq hwidth), hwidth]
  rw [hchars, List.cons_append, reveal, if_neg (Nat.lt_irrefl _), acts_turn,
    Tag.reach_cons hlies.start, Stance.acts]
  simp only [acts, List.append_assoc]
  cases hget : (Registry.withBuiltins hub).get? t.name with
  | none =>
    obtain rfl : policy = .consume := by simpa [hget] using Registry.takes_iff.mp htakes
    obtain ⟨hidle, hclear, hshown⟩ := Tag.idle_of_get?_eq_none hlies.normal hget .consume
    have hstance : ({ ctx with cursor := position } : Context).stance (steps + 1) t.stop =
        (ctx.stance steps position).after .consume (.tag t) := by
      simp [Stance.after, hidle.tempo, hclear, hshown, hlies.stop, Context.stance, Context.tempo,
        Piece.chars]
    refine ⟨{ ctx with cursor := position }, hmode, hstance, ?_⟩
    rw [← hstance, hidle.acts, frame, acts, hskip]
    rfl
  | some h =>
    have hb := Registry.get?_withBuiltins.mp hget
    rw [hlies.normal] at hb
    have hmoved : ({ ctx with cursor := position } : Context).mode = .live := hmode
    have hobeys := hb.obeys { ctx with cursor := position }
    have hshown := hb.buffer_respond policy { ctx with cursor := position }
    have hlanding (ctx : Context) : t.landing (Instant.respond h t ctx).response = t.stop :=
      Instant.landing_respond (Registry.keepsToTags_withBuiltins hub) hget hlies.start_lt_stop.le
    simp only [acts_runTag, hb.liveReply_eq, hb.tagActs_eq hmoved]
    have hlands := hlanding { ctx with cursor := position }
    generalize Instant.respond h t { ctx with cursor := position } = reply at *
    have hstance : (reply.context.append reply.response.shown).stance (steps + 1) t.stop =
        (ctx.stance steps position).after policy (.tag t) := by
      simp only [Context.stance, Context.append, hshown, Stance.after, hlies.stop, Piece.chars]
      exact congrArg (Stance.mk _ _ · _) hobeys.tempo
    refine ⟨reply.context.append reply.response.shown, hobeys.mode.trans hmode, hstance, ?_⟩
    rw [judge_of_goesOn hobeys.goesOn, acts_showResponse,
      responseActs_of_not_isVisible hobeys.quiet, hlands, hskip, ← hstance]
    rfl

/-- The loop over placed pieces goes by their score. -/
theorem acts_reveal {pieces : List Piece} (hplaced : Piece.Placed position pieces)
    (hmode : ctx.mode = .live) :
    (reveal id policy (pieces.flatMap Piece.chars) position position steps
        (pieces.filterMap Piece.tag?) ctx).acts (.withBuiltins hub) =
      ((ctx.stance steps position).rounds hub policy
          (pieces.flatMap (Piece.units ((Registry.withBuiltins hub).takes policy)))).flatten ++
        (complete id).acts (.withBuiltins hub) := by
  induction hplaced using Piece.Placed.along generalizing steps ctx with
  | nil => rfl
  | @plain position c rest _ hstarts ih =>
    have hlive : (ctx.spell position [c]).mode = .live := hmode
    show (reveal id policy (c :: rest.flatMap Piece.chars) position position steps
      (rest.filterMap Piece.tag?) ctx).acts _ = _
    rw [acts_reveal_plain hub (Tag.reach_of_lt hstarts) (by simp), ih hlive, ← List.append_assoc]
    rfl
  | @tag position t rest hlies _ hstarts ih =>
    have htags : (Piece.tag t :: rest).filterMap Piece.tag? =
        t :: rest.filterMap Piece.tag? := rfl
    rw [List.flatMap_cons, Piece.chars, htags, List.flatMap_cons, Piece.units,
      Stance.rounds_append, List.flatten_append]
    by_cases htakes : (Registry.withBuiltins hub).takes policy t
    · obtain ⟨ctx', hmode', hstance, hacts⟩ := acts_reveal_tag hlies htakes hmode
      rw [hacts, ih hmode', if_pos htakes, hstance]
      simp [Stance.rounds]
    -- The characters of a tag that is spelled come before the next tag.
    · obtain ⟨c, cs, hchars, hwidth⟩ := hlies.exists_chars
      obtain ⟨hnobody, hliteral⟩ := Registry.not_takes_iff.mp htakes
      have hspelled : (ctx.spell position (c :: cs)).stance (steps + 1 + cs.length) t.stop =
          ((c :: cs).map Piece.plain).foldl (Stance.after policy)
            (ctx.stance steps position) := by
        rw [← stance_spell, hlies.stop, hchars, List.length_cons, Nat.add_assoc, Nat.add_comm 1]
      have hlive : (ctx.spell position (c :: cs)).mode = .live :=
        (mode_spell position (c :: cs) ctx).trans hmode
      have hrest := @ih (steps + 1 + cs.length) _ hlive
      rw [hspelled, List.map_cons] at hrest
      rw [hchars, List.cons_append,
        acts_reveal_plain hub (Tag.reach_cons hlies.start) (by simp [hnobody, hliteral]),
        acts_reveal_spell hub cs _ (by rwa [hwidth]), hwidth, if_neg htakes, List.map_cons,
        Stance.rounds, List.flatten_cons, List.append_assoc, List.append_assoc, ← hrest]
      rfl

/-- What a session does from its start to its end. -/
theorem acts_start (id : Nat) (hub : HubRef) (policy : UnknownTags) (text : String)
    (speed : Single) :
    (start id policy text (Tag.lex text) speed).acts (.withBuiltins hub) =
      (Stance.rounds hub policy ⟨0, 0, ⟨speed, []⟩, ""⟩
          ((Piece.cut text).flatMap
            (Piece.units ((Registry.withBuiltins hub).takes policy)))).flatten ++
        (complete id).acts (.withBuiltins hub) := by
  rw [start, ← Piece.chars_cut, ← Piece.tags_cut]
  exact acts_reveal (Piece.placed_cut text) rfl

end Session
end TextReveal
