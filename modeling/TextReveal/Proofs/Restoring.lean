import TextReveal.Proofs.Regions
import TextReveal.Proofs.Seams
/-!
Regions of speed put back what they find. Whatever is inside, if its own regions of speed are
balanced, the speed behind the region and the speeds to return to are those before it.
-/
namespace TextReveal
open TextReveal.Bracket

/-- The tags of the regions of speed. -/
def Bracket.ofSpeed (tags : List Tag) : List Bracket :=
  (tags.filter (·.name = "speedregion")).map Tag.bracket

theorem Bracket.ofSpeed_moved (n : Nat) (tags : List Tag) :
    ofSpeed (tags.map (Tag.moved n)) = ofSpeed tags := by
  rw [ofSpeed, List.filter_map, List.map_map]
  rfl

namespace Tempo
variable {tempo : Tempo} {t : Tag} {tags : List Tag}

theorem saved_after_opening (h : t.bracket = ⟨"speedregion", false⟩) :
    (tempo.after t).saved = tempo.speed :: tempo.saved := by
  obtain ⟨hname, hclosing⟩ := Bracket.mk.inj h
  simp [after, hname, hclosing]

theorem after_closing (h : t.bracket = ⟨"speedregion", true⟩) {speed : Number.Single}
    {saved : List Number.Single} (hsaved : tempo.saved = speed :: saved) :
    tempo.after t = ⟨speed, saved⟩ := by
  obtain ⟨hname, hclosing⟩ := Bracket.mk.inj h
  simp [after, hname, hclosing, hsaved]

/-- Tags that close the regions of speed that are open, and all that they open, leave the speeds
that were saved before. -/
theorem saved_foldl_after {opened : List String} (h : Unwinds opened (ofSpeed tags))
    {pushed saved : List Number.Single} (hsaved : tempo.saved = pushed ++ saved)
    (hlength : pushed.length = opened.length) : (tags.foldl after tempo).saved = saved := by
  -- `pushed` holds one speed for each region that is open, on top of those saved before.
  induction tags generalizing tempo opened pushed with
  | nil =>
    obtain rfl := unwinds_nil_iff.mp h
    obtain rfl := List.length_eq_zero_iff.mp hlength
    exact hsaved
  | cons t rest ih =>
    rw [List.foldl_cons]
    by_cases hname : t.name = "speedregion"
    · have hbrackets : ofSpeed (t :: rest) = t.bracket :: ofSpeed rest := by simp [ofSpeed, hname]
      rw [hbrackets] at h
      cases hclosing : t.closing with
      | false =>
        have hopens : t.bracket = ⟨"speedregion", false⟩ := by rw [Tag.bracket, hname, hclosing]
        rw [hopens, unwinds_opening_iff] at h
        have hmore : (tempo.after t).saved = tempo.speed :: pushed ++ saved := by
          rw [saved_after_opening hopens, hsaved, List.cons_append]
        exact ih h hmore (by simp [hlength])
      | true =>
        have hcloses : t.bracket = ⟨"speedregion", true⟩ := by rw [Tag.bracket, hname, hclosing]
        rw [hcloses, unwinds_closing_iff] at h
        obtain ⟨outer, rfl, h⟩ := h
        obtain ⟨speed, pushed, rfl⟩ := List.exists_of_length_succ pushed hlength
        have hless : (tempo.after t).saved = pushed ++ saved := by
          rw [after_closing hcloses hsaved]
          rfl
        exact ih h hless (by simpa using hlength)
    · have hbrackets : ofSpeed (t :: rest) = ofSpeed rest := by simp [ofSpeed, hname]
      rw [hbrackets] at h
      exact ih h ((saved_after_of_ne hname).trans hsaved) hlength

/-- A region of speed around tags whose own regions of speed are balanced. -/
theorem foldl_after_region (h : Balanced (ofSpeed tags)) {o c : Tag}
    (ho : o.bracket = ⟨"speedregion", false⟩) (hc : c.bracket = ⟨"speedregion", true⟩) :
    (o :: tags ++ [c]).foldl after tempo = tempo := by
  have hopened : (tempo.after o).saved = [] ++ tempo.speed :: tempo.saved := saved_after_opening ho
  have hsaved : (tags.foldl after (tempo.after o)).saved = tempo.speed :: tempo.saved :=
    saved_foldl_after (unwinds_iff_balanced.mpr h) hopened rfl
  rw [List.cons_append, List.foldl_cons, List.foldl_append, List.foldl_cons, List.foldl_nil,
    after_closing hc hsaved]

end Tempo

theorem Context.tempo_spell (position : Nat) (cs : List Char) (ctx : Context) :
    (ctx.spell position cs).tempo = ctx.tempo := by
  induction cs generalizing position ctx with
  | nil => rfl
  | cons c cs ih => exact ih _ _

section
variable {r : Registry} {policy : UnknownTags} {position : Nat} {ctx : Context} {tags : List Tag}

theorem strides_skip {answer : Handler → Tag → Context → Reply} {cs tail : List Char} {resume : Nat}
    (h : position + Text.width cs ≤ resume) :
    strides answer r policy (cs ++ tail) position resume tags ctx =
      strides answer r policy tail (position + Text.width cs) resume tags ctx := by
  induction cs generalizing position with
  | nil => rfl
  | cons c cs ih =>
    have hc := c.utf8Size_pos
    rw [Text.width, ← Nat.add_assoc] at h ⊢
    rw [List.cons_append, strides_of_lt (by omega), ih h]

theorem reach_of_width_le {c : Char} {cs : List Char}
    (h : ∀ t ∈ tags, position + Text.width (c :: cs) ≤ t.start) :
    Tag.reach position tags = (none, tags) := by
  refine Tag.reach_of_lt fun t ht => ?_
  have hc := c.utf8Size_pos
  have := h t ht
  rw [Text.width] at this
  omega

/-- A stride that shows the character there. -/
theorem strides_shown {answer : Handler → Tag → Context → Reply} {c : Char} {rest : List Char}
    {here : Option Tag} {later : List Tag} (hreach : Tag.reach position tags = (here, later))
    (hshown : Dealing.at answer r policy c { ctx with cursor := position } here = .shown c) :
    strides answer r policy (c :: rest) position position tags ctx =
      ⟨position, { ctx with cursor := position }, .shown c⟩ ::
        strides answer r policy rest (position + c.utf8Size) (position + c.utf8Size) later
          (ctx.spell position [c]) := by
  rw [strides, if_neg (Nat.lt_irrefl _), hreach]
  simp only [hshown]
  rfl

end

/-- Where pieces from `position` on end. -/
def Piece.stop (position : Nat) (pieces : List Piece) : Nat :=
  position + Text.width (pieces.flatMap chars)

theorem Piece.stop_cons (position : Nat) (p : Piece) (pieces : List Piece) :
    stop position (p :: pieces) = stop (position + Text.width p.chars) pieces := by
  rw [stop, List.flatMap_cons, Text.width_append, ← Nat.add_assoc]
  rfl

/-- The strides of a loop over pieces, whatever comes behind them. -/
def Stride.Leads (r : Registry) (policy : UnknownTags) (pieces : List Piece) (position : Nat)
    (ctx : Context) (strides : List Stride) : Prop :=
  ∀ tail later, (∀ t ∈ later, Piece.stop position pieces ≤ t.start) →
    TextReveal.strides Instant.respond r policy (pieces.flatMap Piece.chars ++ tail) position
        position (pieces.filterMap Piece.tag? ++ later) ctx =
      strides ++ TextReveal.strides Instant.respond r policy tail (Piece.stop position pieces)
        (Piece.stop position pieces) later (last ctx strides)

namespace Stride
variable {r : Registry} {hub : HubRef} {policy : UnknownTags} {position : Nat} {ctx : Context}
  {p : Piece} {pieces : List Piece} {t : Tag} {ss ss' : List Stride}

theorem last_append : last ctx (ss ++ ss') = last (last ctx ss) ss' :=
  List.foldl_append

theorem Leads.cons (h : Leads r policy [p] position ctx ss)
    (hplaced : Piece.Placed (position + Text.width p.chars) pieces)
    (hrest : Leads r policy pieces (position + Text.width p.chars) (last ctx ss) ss') :
    Leads r policy (p :: pieces) position ctx (ss ++ ss') := by
  intro tail later hlater
  have hone : Piece.stop position [p] = position + Text.width p.chars := Piece.stop_cons position p []
  have htags : (p :: pieces).filterMap Piece.tag? =
      [p].filterMap Piece.tag? ++ pieces.filterMap Piece.tag? :=
    List.filterMap_append (l := [p])
  rw [Piece.stop_cons] at hlater ⊢
  have hstarts : ∀ t ∈ pieces.filterMap Piece.tag? ++ later, Piece.stop position [p] ≤ t.start := by
    rw [hone]
    intro t ht
    obtain ht | ht := List.mem_append.mp ht
    · exact hplaced.le_start t ht
    · exact (Nat.le_add_right _ _).trans (hlater t ht)
  have hfirst := h (pieces.flatMap Piece.chars ++ tail) _ hstarts
  rw [hone, hrest tail later hlater, ← List.append_assoc, ← List.append_assoc,
    ← List.flatMap_append, ← htags, ← List.append_assoc, ← last_append] at hfirst
  exact hfirst

/-- Characters are shown one by one. -/
theorem leads_plain (r : Registry) (policy : UnknownTags) (position : Nat) (ctx : Context)
    (cs : List Char) : ∃ strides, Leads r policy (cs.map .plain) position ctx strides ∧
      last ctx strides = ctx.spell position cs := by
  induction cs generalizing position ctx with
  | nil => exact ⟨[], fun _ _ _ => rfl, rfl⟩
  | cons c cs ih =>
    obtain ⟨strides, hleads, hlast⟩ := ih (position + c.utf8Size) (ctx.spell position [c])
    have hone : Leads r policy [.plain c] position ctx
        [⟨position, { ctx with cursor := position }, .shown c⟩] :=
      fun _ _ hlater => strides_shown (reach_of_width_le hlater) rfl
    have hplaced : Piece.Placed (position + Text.width [c]) (cs.map .plain ++ []) :=
      Piece.Placed.append_plain trivial
    rw [List.append_nil] at hplaced
    refine ⟨_, hone.cons hplaced hleads, ?_⟩
    rw [last_append]
    exact hlast

/-- A tag that its handler or nobody takes as a whole. -/
theorem leads_tag (hlies : t.Lies position) {c : Char} {cs : List Char}
    (hchars : t.fullText.toList = c :: cs)
    (hwidth : position + c.utf8Size + Text.width cs = t.stop) {s : Stride}
    (hs : s = ⟨position, { ctx with cursor := position },
      Dealing.at Instant.respond r policy c { ctx with cursor := position } (some t)⟩)
    (hlanding : s.landing = t.stop) : Leads r policy [.tag t] position ctx [s] := by
  intro tail later hlater
  have hspan : [Piece.tag t].flatMap Piece.chars = c :: cs := by simp [Piece.chars, hchars]
  have htags : [Piece.tag t].filterMap Piece.tag? ++ later = t :: later := rfl
  rw [Piece.stop, hspan, htags, List.cons_append, strides, if_neg (Nat.lt_irrefl _),
    Tag.reach_cons hlies.start]
  dsimp only
  rw [← hs, hlanding, strides_skip (Nat.le_of_eq hwidth), Text.width, ← Nat.add_assoc, hwidth]
  rfl

/-- A tag that nobody handles is spelled like any characters. -/
theorem Leads.spelled (h : Leads r .literal (t.fullText.toList.map .plain) position ctx ss)
    (hlies : t.Lies position) (hget : r.get? t.name = none) :
    Leads r .literal [.tag t] position ctx ss := by
  intro tail later hlater
  obtain ⟨c, cs, hchars, -⟩ := hlies.exists_chars
  have hspan : [Piece.tag t].flatMap Piece.chars = c :: cs := by simp [Piece.chars, hchars]
  have hplain := h tail later
  rw [Piece.stop, Piece.flatMap_chars_plain, Piece.filterMap_tag?_plain, hchars,
    List.nil_append] at hplain
  rw [Piece.stop, hspan] at hlater ⊢
  have hshown : Dealing.at Instant.respond r .literal c { ctx with cursor := position } (some t) =
      .shown c := by
    simp [Dealing.at, hget]
  rw [← hplain hlater, List.cons_append, strides_shown (reach_of_width_le hlater) rfl]
  exact strides_shown (Tag.reach_cons hlies.start) hshown

theorem exists_leads_tag (hub : HubRef) (policy : UnknownTags) (ctx : Context)
    (hlies : t.Lies position) :
    ∃ strides, Leads (.withBuiltins hub) policy [.tag t] position ctx strides ∧
      (last ctx strides).tempo = ctx.tempo.after t := by
  obtain ⟨c, cs, hchars, hwidth⟩ := hlies.exists_chars
  cases hget : (Registry.withBuiltins hub).get? t.name with
  | some h =>
    have hb := Registry.get?_withBuiltins.mp hget
    rw [hlies.normal] at hb
    refine ⟨_, leads_tag hlies hchars hwidth rfl ?_, ?_⟩
    · simp only [landing, Dealing.at, hget]
      exact Instant.landing_respond (Registry.keepsToTags_withBuiltins hub) hget
        hlies.start_lt_stop.le
    · have htempo := (hb.obeys { ctx with cursor := position }).tempo
      simp only [last, List.foldl_cons, List.foldl_nil, after, Dealing.at, hget]
      exact htempo
  | none =>
    have htempo : ctx.tempo.after t = ctx.tempo :=
      (Tag.idle_of_get?_eq_none hlies.normal hget policy).1.tempo _
    cases policy with
    | consume =>
      refine ⟨_, leads_tag hlies hchars hwidth rfl ?_, ?_⟩
      · simp only [landing, Dealing.at, hget]
      · simp only [last, List.foldl_cons, List.foldl_nil, after, Dealing.at, hget, htempo]
        rfl
    | literal =>
      obtain ⟨strides, hleads, hspelled⟩ :=
        leads_plain (.withBuiltins hub) .literal position ctx t.fullText.toList
      refine ⟨strides, hleads.spelled hlies hget, ?_⟩
      rw [hspelled, Context.tempo_spell, htempo]

theorem exists_leads (hub : HubRef) (policy : UnknownTags) (ctx : Context)
    (hplaced : Piece.Placed position pieces) :
    ∃ strides, Leads (.withBuiltins hub) policy pieces position ctx strides ∧
      (last ctx strides).tempo = (pieces.filterMap Piece.tag?).foldl Tempo.after ctx.tempo := by
  induction hplaced using Piece.Placed.along generalizing ctx with
  | nil => exact ⟨[], fun _ _ _ => rfl, rfl⟩
  | @plain position c rest hrest _ ih =>
    obtain ⟨first, hfirst, hspelled⟩ := leads_plain (.withBuiltins hub) policy position ctx [c]
    obtain ⟨strides, hleads, htempo⟩ := ih (last ctx first)
    refine ⟨first ++ strides, hfirst.cons hrest hleads, ?_⟩
    rw [last_append, htempo, hspelled, Context.tempo_spell]
    rfl
  | @tag position t rest hlies hrest _ ih =>
    obtain ⟨first, hfirst, hafter⟩ := exists_leads_tag hub policy ctx hlies
    obtain ⟨strides, hleads, htempo⟩ := ih (last ctx first)
    rw [hlies.stop] at hrest hleads
    refine ⟨first ++ strides, hfirst.cons hrest hleads, ?_⟩
    rw [last_append, htempo, hafter]
    rfl

theorem course_append (steps : Nat) :
    course steps (ss ++ ss') = course steps ss ++ course (steps + ss.length) ss' := by
  induction ss generalizing steps with
  | nil => rfl
  | cons s rest ih =>
    rw [List.cons_append, course, course, ih, List.append_assoc, List.length_cons,
      Nat.add_right_comm, Nat.add_assoc]

/-- Whatever comes behind the pieces, an instant pass and a session that nothing disturbs make these
strides first, and go on in the context that they leave. -/
structure Crosses (r : Registry) (policy : UnknownTags) (pieces : List Piece) (position : Nat)
    (ctx : Context) (strides : List Stride) : Prop where
  instant (tail : List Char) (later : List Tag)
    (hlater : ∀ t ∈ later, Piece.stop position pieces ≤ t.start) :
    Instant.walk r policy (pieces.flatMap Piece.chars ++ tail) position position
        (pieces.filterMap Piece.tag? ++ later) ctx =
      let rest := Instant.walk r policy tail (Piece.stop position pieces)
        (Piece.stop position pieces) later (last ctx strides)
      { rest with signals := strides.flatMap signals ++ rest.signals }
  live (tail : List Char) (later : List Tag)
    (hlater : ∀ t ∈ later, Piece.stop position pieces ≤ t.start) (id steps : Nat) :
    (Session.reveal id policy (pieces.flatMap Piece.chars ++ tail) position position steps
        (pieces.filterMap Piece.tag? ++ later) ctx).acts r =
      course steps strides ++ (Session.reveal id policy tail (Piece.stop position pieces)
        (Piece.stop position pieces) (steps + strides.length) later (last ctx strides)).acts r

/-- Built-in handlers answer a session as they answer an instant pass, so the strides are the
same. -/
theorem strides_liveReply (hub : HubRef) (policy : UnknownTags) (chars : List Char)
    (position resume : Nat) (tags : List Tag) (ctx : Context) :
    strides Session.liveReply (.withBuiltins hub) policy chars position resume tags ctx =
      strides Instant.respond (.withBuiltins hub) policy chars position resume tags ctx := by
  have hat : Dealing.at Session.liveReply (.withBuiltins hub) policy =
      Dealing.at Instant.respond (.withBuiltins hub) policy := by
    funext c ctx here
    cases here with
    | none => rfl
    | some t =>
      cases hget : (Registry.withBuiltins hub).get? t.name with
      | none => simp only [Dealing.at, hget]
      | some h => simp only [Dealing.at, hget, (Registry.get?_withBuiltins.mp hget).liveReply_eq]
  induction chars generalizing position resume tags ctx with
  | nil => rfl
  | cons c rest ih =>
    rw [strides, strides, hat]
    split
    · exact ih ..
    · simp only [ih]

theorem Leads.crosses (h : Leads (.withBuiltins hub) policy pieces position ctx ss) :
    Crosses (.withBuiltins hub) policy pieces position ctx ss where
  instant tail later hlater := by
    rw [Instant.walk_eq_strides, Instant.walk_eq_strides, h tail later hlater, rendering,
      last_append, List.flatMap_append]
    rfl
  live tail later hlater id steps := by
    have hgoes := Registry.goesOn_withBuiltins hub
    rw [Session.acts_reveal_strides hgoes, Session.acts_reveal_strides hgoes, strides_liveReply,
      strides_liveReply, h tail later hlater, course_append, List.append_assoc]

end Stride

namespace Tag

/-- The tag that opens a region of speed at a position. -/
def opensSpeed (position : Nat) (parameter : String) : Tag where
  name := "speedregion"
  parameter
  fullText := "[speedregion=" ++ parameter ++ "]"
  start := position
  stop := position + ("[speedregion=" ++ parameter ++ "]").utf8ByteSize
  closing := false

/-- The tag that closes one. -/
def closesSpeed (position : Nat) : Tag where
  name := "speedregion"
  parameter := ""
  fullText := "[/speedregion]"
  start := position
  stop := position + "[/speedregion]".utf8ByteSize
  closing := true

end Tag

namespace Piece

/-- A region of speed around a text. -/
def speedRegion (position : Nat) (parameter inside : String) : List Piece :=
  let opening := Tag.opensSpeed position parameter
  tag opening :: (cut inside).map (moved opening.stop) ++
    [tag (Tag.closesSpeed (opening.stop + inside.utf8ByteSize))]

theorem placed_speedRegion (position : Nat) (parameter inside : String) :
    Placed position (speedRegion position parameter inside) := by
  have hname : Name.normalize "speedregion" = "speedregion" := by decide
  have hinside := (placed_cut inside).moved (Tag.opensSpeed position parameter).stop
  rw [Nat.zero_add] at hinside
  refine ⟨rfl, ?_, ?_, hname, hinside.append ⟨?_, ?_, ?_, hname, trivial⟩⟩
  · rw [Text.width_toList]
    rfl
  · simp [Tag.opensSpeed]
  · rw [flatMap_chars_moved, chars_cut, Text.width_toList]
    rfl
  · rw [flatMap_chars_moved, chars_cut, Text.width_toList, Text.width_toList]
    rfl
  · simp [Tag.closesSpeed]

theorem tags_speedRegion (position : Nat) (parameter inside : String) :
    (speedRegion position parameter inside).filterMap tag? =
      Tag.opensSpeed position parameter ::
        (Tag.lex inside).map (Tag.moved (Tag.opensSpeed position parameter).stop) ++
        [Tag.closesSpeed ((Tag.opensSpeed position parameter).stop + inside.utf8ByteSize)] := by
  have htags := filterMap_tag?_moved (Tag.opensSpeed position parameter).stop (cut inside)
  rw [tags_cut] at htags
  rw [speedRegion, List.filterMap_append, ← htags]
  rfl

theorem mem_lex_opensSpeed {parameter : String} (h : ']' ∉ parameter.toList) :
    Tag.opensSpeed 0 parameter ∈ Tag.lex ("[speedregion=" ++ parameter ++ "]") := by
  have hinner : ']' ∉ "speedregion".toList ++ '=' :: parameter.toList := by
    simp [h]
  have htext : ("[speedregion=" ++ parameter ++ "]").toList =
      (Segment.span ("speedregion".toList ++ '=' :: parameter.toList)).chars := by
    simp [Segment.chars]
  have hreads : Tag.Reads ("speedregion".toList ++ '=' :: parameter.toList) "speedregion".toList
      parameter.toList false := .parameter _ (by decide) (by decide)
  have hname : String.ofList (Text.lower (Text.trim "speedregion".toList)) = "speedregion" := by
    decide
  rw [Tag.lex_of_span hinner htext, Option.mem_toList,
    hreads.ofSpan?_of_named ⟨'s', by decide, by decide⟩, hname, String.ofList_toList]
  simp only [Tag.opensSpeed, Option.some.injEq, Tag.mk.injEq, true_and, and_true]
  refine ⟨?_, ?_⟩
  · rw [← String.toList_inj]
    simp
  · rw [Segment.width, ← htext, Text.width_toList]

/-- So a text reads, if the parameter closes no bracket and nothing inside is left open. -/
theorem cut_speedRegion {parameter inside : String} (hparameter : ']' ∉ parameter.toList)
    (hinside : Text.IsClosed inside) (behind : String) :
    cut ("[speedregion=" ++ parameter ++ "]" ++ inside ++ "[/speedregion]" ++ behind) =
      speedRegion 0 parameter inside ++ (cut behind).map (moved
        ("[speedregion=" ++ parameter ++ "]" ++ inside ++ "[/speedregion]").utf8ByteSize) := by
  obtain ⟨hopening, hopened⟩ := cut_of_fullText (mem_lex_opensSpeed hparameter) rfl
  obtain ⟨hclosing, hclosed⟩ : cut "[/speedregion]" = [tag (Tag.closesSpeed 0)] ∧
      Text.IsClosed "[/speedregion]" := cut_of_fullText (by decide +kernel) rfl
  have hstop : (Tag.opensSpeed 0 parameter).stop =
      ("[speedregion=" ++ parameter ++ "]").utf8ByteSize := Nat.zero_add _
  have hlast (m n : Nat) : moved n (tag (Tag.closesSpeed m)) = tag (Tag.closesSpeed (n + m)) := by
    simp only [moved, Tag.moved, Tag.closesSpeed, Nat.add_right_comm m, Nat.add_comm m n]
  rw [speedRegion, hstop]
  generalize "[speedregion=" ++ parameter ++ "]" = opening at *
  rw [String.append_assoc, String.append_assoc, cut_append hopened, cut_append hinside,
    cut_append hclosed, hopening, hclosing]
  have hbehind : opening.utf8ByteSize + inside.utf8ByteSize + "[/speedregion]".utf8ByteSize =
      "[/speedregion]".utf8ByteSize + inside.utf8ByteSize + opening.utf8ByteSize := by omega
  simp only [List.map_append, List.map_map, Function.comp_def, moved_moved, List.map_cons, hlast,
    List.append_assoc, List.cons_append, List.nil_append, String.utf8ByteSize_append, hbehind,
    Nat.add_zero]

end Piece

namespace Stride

/-- Whatever the context and the parameter are, a region of speed leaves the speed and the speeds to
return to as they were, if the regions of speed inside it are balanced. A text is read as such a
region if its brackets are those of the region and of what is inside. -/
theorem restores_speedRegion (hub : HubRef) (policy : UnknownTags) (ctx : Context) (position : Nat)
    (parameter inside : String) (h : Balanced (ofSpeed (Tag.lex inside))) :
    (∃ strides, Crosses (.withBuiltins hub) policy (Piece.speedRegion position parameter inside)
        position ctx strides ∧
      (last ctx strides).speed = ctx.speed ∧
      (last ctx strides).savedSpeeds = ctx.savedSpeeds) ∧
    (']' ∉ parameter.toList → Text.IsClosed inside → ∀ behind,
      Piece.cut ("[speedregion=" ++ parameter ++ "]" ++ inside ++ "[/speedregion]" ++ behind) =
        Piece.speedRegion 0 parameter inside ++ (Piece.cut behind).map (Piece.moved
          ("[speedregion=" ++ parameter ++ "]" ++ inside ++ "[/speedregion]").utf8ByteSize)) := by
  refine ⟨?_, fun hparameter hinside behind => Piece.cut_speedRegion hparameter hinside behind⟩
  obtain ⟨strides, hleads, htempo⟩ :=
    exists_leads hub policy ctx (Piece.placed_speedRegion position parameter inside)
  rw [Piece.tags_speedRegion, Tempo.foldl_after_region (by rwa [ofSpeed_moved]) rfl
    rfl] at htempo
  exact ⟨strides, hleads.crosses, congrArg Tempo.speed htempo, congrArg Tempo.saved htempo⟩

/-- A region with a bad parameter, behind another one, around a speed and a third region. -/
theorem restores_speedRegion_of_nested :
    Balanced (ofSpeed (Tag.lex "a[speed=0][speedregion=0.2]é[/SpeedRegion]b[pause=1]")) ∧
    (∃ (ctx : Context) (strides : List Stride), ctx.savedSpeeds ≠ [] ∧
      Crosses (.withBuiltins .own) .literal
        (Piece.speedRegion 3 "x" "a[speed=0][speedregion=0.2]é[/SpeedRegion]b[pause=1]") 3 ctx
        strides ∧
      (last ctx strides).speed = ctx.speed ∧
      (last ctx strides).savedSpeeds = ctx.savedSpeeds) ∧
    ']' ∉ "x".toList ∧
    Text.IsClosed "a[speed=0][speedregion=0.2]é[/SpeedRegion]b[pause=1]" ∧
    Piece.cut ("[speedregion=" ++ "x" ++ "]" ++
        "a[speed=0][speedregion=0.2]é[/SpeedRegion]b[pause=1]" ++ "[/speedregion]" ++ "c") =
      Piece.speedRegion 0 "x" "a[speed=0][speedregion=0.2]é[/SpeedRegion]b[pause=1]" ++
        (Piece.cut "c").map (Piece.moved ("[speedregion=" ++ "x" ++ "]" ++
          "a[speed=0][speedregion=0.2]é[/SpeedRegion]b[pause=1]" ++
          "[/speedregion]").utf8ByteSize) := by
  have hbalanced :
      Balanced (ofSpeed (Tag.lex "a[speed=0][speedregion=0.2]é[/SpeedRegion]b[pause=1]")) := by
    have hbrackets :
        ofSpeed (Tag.lex "a[speed=0][speedregion=0.2]é[/SpeedRegion]b[pause=1]") =
          [⟨"speedregion", false⟩, ⟨"speedregion", true⟩] := by
      decide +kernel
    rw [hbrackets]
    exact .region "speedregion" .nil .nil
  have hlast : (Segment.cut
      "a[speed=0][speedregion=0.2]é[/SpeedRegion]b[pause=1]".toList).getLast? =
        some (.gap []) := by
    decide +kernel
  have hclosed := (Text.isClosed_iff hlast).mpr List.not_mem_nil
  have hparameter : ']' ∉ "x".toList := by decide
  obtain ⟨⟨strides, hcrosses, hspeed, hsaved⟩, hcut⟩ := restores_speedRegion .own .literal
    { source := "", speed := ({} : Config).defaultSpeed,
      savedSpeeds := [({} : Config).defaultSpeed], mode := .live } 3 "x" _ hbalanced
  exact ⟨hbalanced, ⟨_, strides, List.cons_ne_nil _ _, hcrosses, hspeed, hsaved⟩, hparameter,
    hclosed, hcut hparameter hclosed "c"⟩

end Stride
end TextReveal
