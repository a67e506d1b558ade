import Mathlib.Data.List.DropRight
import TextReveal.Player.Stage
import TextReveal.Proofs.Builtins
import TextReveal.Proofs.Pieces
/-!
What an instant pass shows. By handlers that keep to their tags it goes through a text piece by
piece; by the built-in ones it shows what stands behind the last `clear`, with the markup written
out.
-/
namespace TextReveal

/-- The characters shown one by one, the first of them at `position`. -/
def Context.spell (position : Nat) : List Char → Context → Context
  | [], ctx => ctx
  | c :: cs, ctx =>
    spell (position + c.utf8Size) cs ({ ctx with cursor := position }.append c.toString)

theorem Context.buffer_spell (position : Nat) (cs : List Char) (ctx : Context) :
    (ctx.spell position cs).buffer = ctx.buffer ++ String.ofList cs := by
  induction cs generalizing position ctx with
  | nil => simp [spell]
  | cons c cs ih =>
    have hcons : String.ofList (c :: cs) = c.toString ++ String.ofList cs := by
      rw [← String.toList_inj]
      simp
    rw [spell, ih, hcons, ← String.append_assoc]
    rfl

namespace Instant
variable (registry : Registry) (policy : UnknownTags)

/-- A pass over pieces: every tag goes to its handler, or is swallowed or spelled if nobody handles
it. -/
def read : List Piece → Nat → Context → Rendering
  | [], _, ctx => ⟨ctx, []⟩
  | .plain c :: rest, position, ctx =>
    read rest (position + c.utf8Size) (ctx.spell position [c])
  | .tag t :: rest, position, ctx =>
    match registry.get? t.name, policy with
    | some h, _ =>
      let reply := respond h t { ctx with cursor := position }
      let tail := read rest t.stop (reply.context.append reply.response.shown)
      { tail with signals := reply.signals ++ tail.signals }
    | none, .consume => read rest t.stop { ctx with cursor := position }
    | none, .literal => read rest t.stop (ctx.spell position t.fullText.toList)

end Instant

/-- No handler claims more of a text than the tag it is called for. -/
def Registry.KeepsToTags (r : Registry) : Prop :=
  ∀ name h, r.get? name = some h → ∀ ctx parameter,
    (h.opening ctx parameter).response.consumed = 0 ∧ (h.closing ctx).response.consumed = 0

namespace Instant
variable {registry : Registry} {policy : UnknownTags}

/-- Characters before the place where a pass goes on are passed over. -/
theorem walk_skip {cs tail : List Char} {position resume : Nat} {tags : List Tag} {ctx : Context}
    (h : position + Text.width cs ≤ resume) :
    walk registry policy (cs ++ tail) position resume tags ctx =
      walk registry policy tail (position + Text.width cs) resume tags ctx := by
  induction cs generalizing position with
  | nil => rfl
  | cons c cs ih =>
    have hc := c.utf8Size_pos
    rw [Text.width, ← Nat.add_assoc] at h ⊢
    rw [List.cons_append, walk, if_pos (by omega), ih h]

/-- Characters before the next tag are shown one by one. -/
theorem walk_spell (cs tail : List Char) {position : Nat} {tags : List Tag} (ctx : Context)
    (h : ∀ t ∈ tags, position + Text.width cs ≤ t.start) :
    walk registry policy (cs ++ tail) position position tags ctx =
      walk registry policy tail (position + Text.width cs) (position + Text.width cs) tags
        (ctx.spell position cs) := by
  induction cs generalizing position ctx with
  | nil => rfl
  | cons c cs ih =>
    have hc := c.utf8Size_pos
    simp only [Text.width, ← Nat.add_assoc] at h ⊢
    have hreach : Tag.reach position tags = (none, tags) :=
      Tag.reach_of_lt fun t ht => by have := h t ht; omega
    rw [List.cons_append, walk, if_neg (Nat.lt_irrefl _), hreach]
    exact ih _ h

theorem landing_respond (htidy : registry.KeepsToTags) {h : Handler} {t : Tag} {ctx : Context}
    (hget : registry.get? t.name = some h) (hspan : t.start ≤ t.stop) :
    t.landing (respond h t ctx).response = t.stop := by
  have hconsumed : (respond h t ctx).response.consumed = 0 := by
    unfold respond
    split
    · exact (htidy _ _ hget ctx "").2
    · exact (htidy _ _ hget ctx t.parameter).1
  rw [Tag.landing, hconsumed, Nat.add_zero, Nat.max_eq_left hspan]

/-- A pass by positions is a pass over pieces. -/
theorem walk_eq_read (htidy : registry.KeepsToTags) {pieces : List Piece} {position : Nat}
    (hplaced : Piece.Placed position pieces) (ctx : Context) :
    walk registry policy (pieces.flatMap Piece.chars) position position
      (pieces.filterMap Piece.tag?) ctx = read registry policy pieces position ctx := by
  induction hplaced using Piece.Placed.along generalizing ctx with
  | nil => rfl
  | @plain position c rest hrest _ ih =>
    rw [read, ← ih]
    exact walk_spell [c] (rest.flatMap Piece.chars) ctx hrest.le_start
  | @tag position t rest hlies _ hstarts ih =>
    obtain ⟨c, cs, hchars, hwidth⟩ := hlies.exists_chars
    -- Whoever handles the tag, the pass goes on behind it.
    have hskip (ctx : Context) : walk registry policy (cs ++ rest.flatMap Piece.chars)
        (position + c.utf8Size) t.stop (rest.filterMap Piece.tag?) ctx =
          read registry policy rest t.stop ctx := by
      rw [walk_skip (Nat.le_of_eq hwidth), hwidth, ih]
    have htags : (Piece.tag t :: rest).filterMap Piece.tag? =
        t :: rest.filterMap Piece.tag? := rfl
    rw [List.flatMap_cons, Piece.chars, hchars, List.cons_append, htags, walk,
      if_neg (Nat.lt_irrefl _), Tag.reach_cons hlies.start]
    cases hget : registry.get? t.name with
    | some h =>
      simp only [read, hget, landing_respond htidy hget hlies.start_lt_stop.le, hskip]
    | none =>
      cases policy with
      | consume => simp only [read, hget, hskip]
      | literal =>
        -- Nothing is skipped here: the rest of the tag is spelled before the next tag comes.
        simp only [read, hget]
        rw [hchars, ← ih, ← hwidth]
        exact walk_spell cs (rest.flatMap Piece.chars) (ctx.spell position [c])
          (by rwa [hwidth])

end Instant

/-- The final text is read off the pieces of the source. -/
theorem renderInstant_eq_read {registry : Registry} (htidy : registry.KeepsToTags)
    (policy : UnknownTags) (source : String) (speed : Number.Single) :
    renderInstant registry policy source (Tag.lex source) speed =
      Instant.read registry policy (Piece.cut source) 0 { source, speed, mode := .instant } := by
  have h : Instant.walk registry policy _ 0 0 _ _ = _ := Instant.walk_eq_read htidy
    (Piece.placed_cut source) { source, speed, mode := .instant }
  rwa [Piece.chars_cut, Piece.tags_cut] at h

namespace Piece

/-- Whether a piece is a tag named `clear`, opening or closing. -/
def isClear : Piece → Bool
  | plain _ => false
  | tag t => t.name == "clear"

/-- What a piece adds to the final text. Unregistered tags go or stay as they were written. -/
def shown (policy : UnknownTags) : Piece → String
  | plain c => c.toString
  | tag t =>
    if t.name ∈ ["color", "size", "b", "i", "u"] then
      if t.closing then "</" ++ t.name ++ ">"
      else "<" ++ t.name ++ (if t.parameter = "" then "" else "=" ++ t.parameter) ++ ">"
    else if t.name ∈ ["br", "n"] then "\n"
    else if t.name ∈ ["speed", "speedregion", "pause", "action", "clear"] then ""
    else match policy with
      | .consume => ""
      | .literal => t.fullText

end Piece

/-- An answer that claims nothing beyond the tag, or a failure. -/
theorem Handler.consumed_withSeconds {tag parameter : String} {ctx : Context}
    {next : Number.Single → Reply} (h : ∀ s, (next s).response.consumed = 0) :
    (withSeconds tag parameter ctx next).response.consumed = 0 := by
  unfold withSeconds
  split
  · exact h _
  · rfl

theorem Registry.IsBuiltin.consumed {hub : HubRef} {name : String} {h : Handler}
    (hb : IsBuiltin hub name h) (ctx : Context) (parameter : String) :
    (h.opening ctx parameter).response.consumed = 0 ∧ (h.closing ctx).response.consumed = 0 := by
  cases hb with
  | markup => exact ⟨rfl, rfl⟩
  | lineBreak => exact ⟨rfl, rfl⟩
  | speed =>
    rw [Handler.opening_speed]
    exact ⟨Handler.consumed_withSeconds fun _ => rfl, rfl⟩
  | speedRegion =>
    rw [Handler.opening_speedRegion]
    refine ⟨Handler.consumed_withSeconds fun _ => rfl, ?_⟩
    cases hs : ctx.savedSpeeds <;> simp [Handler.speedRegion, hs] <;> rfl
  | pause =>
    rw [Handler.opening_pause]
    exact ⟨Handler.consumed_withSeconds fun _ => rfl, rfl⟩
  | clear => exact ⟨rfl, rfl⟩
  | action => exact ⟨rfl, rfl⟩

theorem Registry.keepsToTags_withBuiltins (hub : HubRef) : (withBuiltins hub).KeepsToTags :=
  fun _ _ hget => (get?_withBuiltins.mp hget).consumed

/-- The text shown by a seconds handler is the text shown before. -/
theorem Handler.buffer_withSeconds {tag parameter : String} {ctx : Context}
    {next : Number.Single → Reply}
    (h : ∀ s, (next s).context.buffer ++ (next s).response.shown = ctx.buffer) :
    (withSeconds tag parameter ctx next).context.buffer ++
      (withSeconds tag parameter ctx next).response.shown = ctx.buffer := by
  unfold withSeconds
  split
  · exact h _
  · exact String.append_empty

/-- Where tags do not come in pairs, a closing one is taken for an opening one. -/
theorem Instant.respond_of_not_isRegion {h : Handler} (hr : h.isRegion = false) {t : Tag}
    {ctx : Context} : respond h t ctx = h.opening ctx t.parameter := by
  rw [respond, Tag.closes, hr, Bool.and_false]
  rfl

/-- What a built-in handler makes of the text shown so far. -/
theorem Registry.IsBuiltin.buffer_respond {hub : HubRef} {t : Tag} {h : Handler}
    (hb : IsBuiltin hub t.name h) (policy : UnknownTags) (ctx : Context) :
    (Instant.respond h t ctx).context.buffer ++ (Instant.respond h t ctx).response.shown =
      if (Piece.tag t).isClear then "" else ctx.buffer ++ (Piece.tag t).shown policy := by
  simp only [Piece.isClear, beq_iff_eq, Piece.shown]
  -- Only `clear` touches the text shown so far; the others respond with what their tag shows.
  cases hb with
  | markup hm =>
    have hname : String.ofList (Text.lower t.name.toList) = t.name := name_markup hm
    have hclear : t.name ≠ "clear" := by
      intro hc
      rw [hc] at hm
      exact absurd hm (by decide)
    rw [if_neg hclear, if_pos (show t.name ∈ ["color", "size", "b", "i", "u"] from hm)]
    simp only [Instant.respond, Tag.closes, Handler.markup, hname, Bool.and_true]
    cases t.closing with
    | true => rfl
    | false =>
      by_cases hp : t.parameter = "" <;>
        simp [hp, Reply.answer, Reply.response, Response.shown, Response.replace,
          Response.invisible, Handler.openingMarkup, String.append_assoc]
  | lineBreak hm =>
    simp only [List.mem_cons, List.not_mem_nil, or_false] at hm
    obtain hm | hm := hm <;>
      simp [hm, Instant.respond, Tag.closes, Handler.lineBreak, Reply.answer, Reply.response,
        Response.shown, Response.replace, Response.invisible]
  | speed hm =>
    rw [Instant.respond_of_not_isRegion rfl, Handler.opening_speed]
    refine (Handler.buffer_withSeconds fun _ => String.append_empty).trans ?_
    simp [hm]
  | speedRegion hm =>
    rw [Instant.respond, Tag.closes, show Handler.speedRegion.isRegion = true from rfl,
      Bool.and_true]
    cases t.closing with
    | true =>
      cases hs : ctx.savedSpeeds <;> simp [hm, hs, Handler.speedRegion] <;>
        exact String.append_empty
    | false =>
      rw [if_neg (by simp), Handler.opening_speedRegion]
      refine (Handler.buffer_withSeconds fun _ => String.append_empty).trans ?_
      simp [hm]
  | pause hm =>
    rw [Instant.respond_of_not_isRegion rfl, Handler.opening_pause]
    refine (Handler.buffer_withSeconds fun _ => String.append_empty).trans ?_
    simp [hm]
  | clear hm =>
    simp [hm, Instant.respond, Tag.closes, Handler.clear, Reply.answer, Reply.response,
      Response.shown, Response.invisible]
  | action hm =>
    simp [hm, Instant.respond, Tag.closes, Handler.action, Reply.response, Response.shown,
      Response.invisible]

/-- What a name of no built-in handler leaves of its tag. -/
theorem Piece.shown_of_not_isBuiltin {hub : HubRef} {t : Tag}
    (h : ∀ handler, ¬Registry.IsBuiltin hub t.name handler) (policy : UnknownTags) :
    (tag t).isClear = false ∧ (tag t).shown policy =
      match policy with
      | .consume => ""
      | .literal => t.fullText := by
  have hstyle : t.name ∉ ["color", "size", "b", "i", "u"] := fun hm => h _ (.markup hm)
  have hbreak : t.name ∉ ["br", "n"] := fun hm => h _ (.lineBreak hm)
  have hclear : t.name ≠ "clear" := fun hm => h _ (.clear hm)
  have hrest : t.name ∉ ["speed", "speedregion", "pause", "action", "clear"] := by
    intro hm
    simp only [List.mem_cons, List.not_mem_nil, or_false] at hm
    obtain hm | hm | hm | hm | hm := hm
    · exact h _ (.speed hm)
    · exact h _ (.speedRegion hm)
    · exact h _ (.pause hm)
    · exact h _ (.action hm)
    · exact h _ (.clear hm)
  refine ⟨by simpa [isClear] using hclear, ?_⟩
  simp only [shown, if_neg hstyle, if_neg hbreak, if_neg hrest]

/-- A pass by the built-in handlers shows piece after piece, and starts anew at every `clear`. -/
theorem Instant.buffer_read {hub : HubRef} {policy : UnknownTags} {pieces : List Piece}
    {position : Nat} (hplaced : Piece.Placed position pieces) (ctx : Context) :
    (read (.withBuiltins hub) policy pieces position ctx).context.buffer =
      pieces.foldl (fun shown p => if p.isClear then "" else shown ++ p.shown policy)
        ctx.buffer := by
  induction hplaced using Piece.Placed.along generalizing ctx with
  | nil => rfl
  | plain c rest _ _ ih => exact ih _
  | @tag position t rest hlies _ _ ih =>
    rw [List.foldl_cons]
    cases hget : (Registry.withBuiltins hub).get? t.name with
    | some h =>
      have hb := Registry.get?_withBuiltins.mp hget
      rw [hlies.normal] at hb
      simp only [read, hget]
      rw [ih, ← hb.buffer_respond policy { ctx with cursor := position }]
      rfl
    | none =>
      have hnone (h : Handler) : ¬Registry.IsBuiltin hub t.name h := by
        intro hb
        rw [← hlies.normal] at hb
        rw [Registry.get?_withBuiltins.mpr hb] at hget
        cases hget
      obtain ⟨hclear, hshown⟩ := Piece.shown_of_not_isBuiltin hnone policy
      rw [hclear, hshown]
      cases policy with
      | consume =>
        simp only [read, hget]
        rw [ih]
        simp
      | literal =>
        simp only [read, hget]
        rw [ih, Context.buffer_spell, String.ofList_toList]
        simp

/-- Only what stands behind the last reset counts. -/
theorem foldl_reset (policy : UnknownTags) (pieces : List Piece) :
    pieces.foldl (fun shown p => if p.isClear then "" else shown ++ p.shown policy) "" =
      String.join ((pieces.rtakeWhile fun p => !p.isClear).map (Piece.shown policy)) := by
  induction pieces using List.reverseRecOn with
  | nil => rfl
  | append_singleton rest p ih =>
    rw [List.foldl_concat, List.rtakeWhile_concat, ih]
    cases hc : p.isClear with
    | true => simp [String.join]
    | false => simp [String.join, List.foldl_append]

namespace Handler

/-- What a handler does to an instant pass: nothing outside it. -/
structure Quiet (h : Handler) : Prop where
  opening : ∀ ctx parameter, ctx.mode = .instant →
    (h.opening ctx parameter).signals = [] ∧ (h.opening ctx parameter).context.mode = .instant
  closing : ∀ ctx, ctx.mode = .instant →
    (h.closing ctx).signals = [] ∧ (h.closing ctx).context.mode = .instant

theorem quiet_withSeconds {name parameter : String} {ctx : Context} {next : Number.Single → Reply}
    (hmode : ctx.mode = .instant)
    (hnext : ∀ s, (next s).signals = [] ∧ (next s).context.mode = .instant) :
    (withSeconds name parameter ctx next).signals = [] ∧
      (withSeconds name parameter ctx next).context.mode = .instant := by
  unfold withSeconds
  split
  · exact hnext _
  · exact ⟨rfl, hmode⟩

end Handler

theorem Registry.IsBuiltin.isQuiet {hub : HubRef} {name : String} {h : Handler}
    (hb : IsBuiltin hub name h) : h.Quiet := by
  cases hb with
  | markup => exact ⟨fun _ _ hmode => ⟨rfl, hmode⟩, fun _ hmode => ⟨rfl, hmode⟩⟩
  | lineBreak => exact ⟨fun _ _ hmode => ⟨rfl, hmode⟩, fun _ hmode => ⟨rfl, hmode⟩⟩
  | clear => exact ⟨fun _ _ hmode => ⟨rfl, hmode⟩, fun _ hmode => ⟨rfl, hmode⟩⟩
  | speed =>
    refine ⟨fun ctx parameter hmode => ?_, fun _ hmode => ⟨rfl, hmode⟩⟩
    rw [Handler.opening_speed]
    exact Handler.quiet_withSeconds hmode fun _ => ⟨rfl, hmode⟩
  | speedRegion =>
    refine ⟨fun ctx parameter hmode => ?_, fun ctx hmode => ?_⟩
    · rw [Handler.opening_speedRegion]
      exact Handler.quiet_withSeconds hmode fun _ => ⟨rfl, hmode⟩
    · simp only [Handler.speedRegion]
      split <;> exact ⟨rfl, hmode⟩
  | pause =>
    refine ⟨fun ctx parameter hmode => ?_, fun _ hmode => ⟨rfl, hmode⟩⟩
    rw [Handler.opening_pause]
    exact Handler.quiet_withSeconds hmode fun _ => ⟨rfl, hmode⟩
  | action =>
    refine ⟨fun ctx parameter hmode => ⟨?_, hmode⟩, fun _ hmode => ⟨rfl, hmode⟩⟩
    simp [Handler.action, hmode]

namespace Instant

theorem quiet_respond {h : Handler} (hquiet : h.Quiet) (t : Tag) {ctx : Context}
    (hmode : ctx.mode = .instant) :
    (respond h t ctx).signals = [] ∧ (respond h t ctx).context.mode = .instant := by
  unfold respond
  split
  · exact hquiet.closing ctx hmode
  · exact hquiet.opening ctx t.parameter hmode

theorem signals_walk {registry : Registry}
    (hquiet : ∀ name h, registry.get? name = some h → h.Quiet) (policy : UnknownTags)
    (chars : List Char) (position resume : Nat) (tags : List Tag) {ctx : Context}
    (hmode : ctx.mode = .instant) :
    (walk registry policy chars position resume tags ctx).signals = [] := by
  induction chars generalizing position resume tags ctx with
  | nil => rfl
  | cons c rest ih =>
    rw [walk]
    split
    · exact ih _ _ _ hmode
    · obtain ⟨here, later⟩ := Tag.reach position tags
      cases here with
      | none => exact ih _ _ _ hmode
      | some t =>
        cases hget : registry.get? t.name with
        | some h =>
          have hmoved : ({ ctx with cursor := position } : Context).mode = .instant := hmode
          obtain ⟨hsignals, hmode'⟩ := quiet_respond (hquiet _ h hget) t hmoved
          simp only [hget, hsignals, List.nil_append]
          exact ih _ _ _ hmode'
        | none =>
          cases policy <;> simp only [hget] <;> exact ih _ _ _ hmode

end Instant

/-- An instant pass by the built-in handlers fires nothing. -/
theorem Registry.signals_renderInstant (hub : HubRef) (policy : UnknownTags) (source : String)
    (tags : List Tag) (speed : Number.Single) :
    (renderInstant (.withBuiltins hub) policy source tags speed).signals = [] :=
  Instant.signals_walk (fun _ _ hget => (get?_withBuiltins.mp hget).isQuiet) policy _ _ _ _ rfl

/-- Instant rendering by the built-in handlers. The text is cut into its tags and the characters
outside them; everything up to the last `clear` is dropped, and the rest is written out. -/
theorem finalText_behind_last_clear {σ : Type} (st : Stage σ) (hub : HubRef) (text : String) :
    (Piece.cut text).flatMap Piece.chars = text.toList ∧
      (Piece.cut text).filterMap Piece.tag? = Tag.lex text ∧
      ({ st with registry := .withBuiltins hub }.finalText text).1 =
        String.join (((Piece.cut text).rtakeWhile fun p => !p.isClear).map
          (Piece.shown st.player.config.unknownTags)) := by
  refine ⟨Piece.chars_cut text, Piece.tags_cut text, ?_⟩
  have hrender := renderInstant_eq_read (Registry.keepsToTags_withBuiltins hub)
    st.player.config.unknownTags text st.player.config.defaultSpeed
  rw [← foldl_reset]
  simp only [Stage.finalText, Stage.render, hrender]
  exact Instant.buffer_read (Piece.placed_cut text) _

end TextReveal
