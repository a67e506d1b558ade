import TextReveal.Proofs.Nesting
import TextReveal.Proofs.Stripping
import TextReveal.Proofs.Traversal
/-!
Regions in play. Where a text is valid, the handlers of its regions are called in a nested order,
and every region of speed returns to a speed that was saved.
-/
namespace TextReveal
open TextReveal.Bracket Number

namespace Tempo
variable {tempo : Tempo} {t : Tag}

theorem saved_after_of_ne (h : t.name ≠ "speedregion") : (tempo.after t).saved = tempo.saved := by
  unfold after
  by_cases hspeed : t.name = "speed"
  · rw [if_pos hspeed]
  · rw [if_neg hspeed, if_neg h]

theorem length_saved_after (h : t.name = "speedregion") : (tempo.after t).saved.length =
    if t.closing then tempo.saved.length - 1 else tempo.saved.length + 1 := by
  have hspeed : t.name ≠ "speed" := by simp [h]
  unfold after
  rw [if_neg hspeed, if_pos h]
  cases t.closing with
  | false => rfl
  | true => cases hsaved : tempo.saved <;> simp [hsaved]

/-- As many speeds are saved as regions of speed are open, also behind the bracket of a region, if
it closes none but the innermost one. -/
theorem length_saved_next {opened : List String}
    (hcount : tempo.saved.length = opened.count "speedregion")
    (hinner : t.closing = true → opened.head? = some t.name) :
    (tempo.after t).saved.length = (Bracket.next opened t.bracket).count "speedregion" := by
  cases hclosing : t.closing with
  | false =>
    have hnext : Bracket.next opened t.bracket = t.name :: opened := by
      simp [Bracket.next, Tag.bracket, hclosing]
    rw [hnext]
    by_cases hspeed : t.name = "speedregion"
    · rw [length_saved_after hspeed, hspeed, List.count_cons_self, hclosing, hcount]
      rfl
    · rw [saved_after_of_ne hspeed, hcount, List.count_cons_of_ne hspeed]
  | true =>
    obtain ⟨outer, rfl⟩ := List.head?_eq_some_iff.mp (hinner hclosing)
    have hnext : Bracket.next (t.name :: outer) t.bracket = outer := by
      simp [Bracket.next, Tag.bracket, hclosing]
    rw [hnext]
    by_cases hspeed : t.name = "speedregion"
    · rw [hspeed, List.count_cons_self] at hcount
      rw [length_saved_after hspeed, hclosing, hcount]
      rfl
    · rw [saved_after_of_ne hspeed, hcount, List.count_cons_of_ne hspeed]

end Tempo

namespace Stride

/-- The call of a region's handler, as a bracket. -/
def call? (s : Stride) : Option Bracket :=
  match s.dealing with
  | .handled t h _ => if h.isRegion then some ⟨h.name, t.closes h⟩ else none
  | .swallowed _ | .shown _ => none

/-- Which regions strides leave open, the innermost first. -/
def regions (strides : List Stride) : List String :=
  unclosed (strides.filterMap call?)

/-- What holds of strides from a context on that call the handlers of regions in a nested order. -/
structure Nests (brackets : List Bracket) (ctx : Context) (strides : List Stride) : Prop where
  calls : strides.filterMap call? = brackets
  /-- A call that closes a region closes the innermost one. -/
  innermost : ∀ before s behind name, strides = before ++ s :: behind →
    s.call? = some ⟨name, true⟩ → (regions before).head? = some name
  /-- It finds a speed to return to, if it is one of speed. -/
  saved : ∀ s ∈ strides, s.call? = some ⟨"speedregion", true⟩ → s.context.savedSpeeds ≠ []
  closed : regions strides = []
  restored : (last ctx strides).savedSpeeds = []

end Stride

namespace Tag
variable {text : String} {t : Tag}

theorem nodup_lex (text : String) : (lex text).Nodup := by
  refine (pairwise_lex text).imp fun {t u} h heq => ?_
  exact Nat.ne_of_lt h.1 (congrArg start heq)

theorem isBuiltin {hub : HubRef} {h : Handler} (ht : t ∈ lex text)
    (hget : (Registry.withBuiltins hub).get? t.name = some h) :
    Registry.IsBuiltin hub t.name h := by
  have hb := Registry.get?_withBuiltins.mp hget
  rwa [normalize_name ht] at hb

end Tag

section
variable {answer : Handler → Tag → Context → Reply} {r : Registry} {policy : UnknownTags}
  {text : String} {ctx : Context}

/-- Where every tag has a handler, and no handler claims more than its tag, all tags are handled. -/
theorem filterMap_tag?_passage (hknown : ∀ t ∈ Tag.lex text, r.has t.name)
    (htidy : ∀ t ∈ Tag.lex text, ∀ h, r.get? t.name = some h → ∀ ctx,
      t.landing (answer h t ctx).response = t.stop) :
    (passage answer r policy text ctx).filterMap Stride.tag? = Tag.lex text := by
  have htraverse : Stride.Traverse answer r policy text ctx (passage answer r policy text ctx) :=
    traverse_passage
  -- Nobody claims a tag here, so every tag is reached, and neither list is the longer one.
  have hall : Tag.lex text ⊆ (passage answer r policy text ctx).filterMap Stride.tag? := by
    intro t ht
    have hfree : ¬∃ s ∈ passage answer r policy text ctx, s.Claims t := by
      rintro ⟨s, hs, u, h, reply, hdealing, hbefore, hbehind⟩
      have hdeals := htraverse.deals s hs
      rw [Stride.Deals, hdealing] at hdeals
      obtain ⟨hu, -, hget, rfl⟩ := hdeals
      rw [htidy u hu h hget] at hbehind
      exact Nat.not_lt.mpr (Tag.stop_le_start hu ht hbefore) hbehind
    obtain ⟨s, hs, hposition⟩ := (htraverse.reached t ht).mpr hfree
    have hdeals := htraverse.deals s hs
    have hhas := Registry.has_iff.mp (hknown t ht)
    refine List.mem_filterMap.mpr ⟨s, hs, ?_⟩
    unfold Stride.Deals at hdeals
    unfold Stride.tag?
    cases hdealing : s.dealing with
    | handled u h reply =>
      rw [hdealing] at hdeals
      rw [Tag.eq_of_start_eq hdeals.1 ht (hdeals.2.1.trans hposition)]
    | swallowed u =>
      rw [hdealing] at hdeals
      rw [Tag.eq_of_start_eq hdeals.1 ht (hdeals.2.1.trans hposition)]
    | shown c =>
      rw [hdealing] at hdeals
      have hnobody := (hdeals.2 t ht hposition.symm).1
      simp [hnobody] at hhas
  exact htraverse.once.eq_of_length_le ((Tag.nodup_lex text).length_le_of_subset hall)

end

namespace Stride
variable {answer : Handler → Tag → Context → Reply} {hub : HubRef} {policy : UnknownTags}
  {text : String} {ctx : Context} {s : Stride} {strides : List Stride} {opened : List String}

theorem call?_of_handled {t : Tag} {h : Handler} {reply : Reply} (ht : t ∈ Tag.lex text)
    (hget : (Registry.withBuiltins hub).get? t.name = some h)
    (hdealing : s.dealing = .handled t h reply) :
    s.call? = if h.isRegion then some t.bracket else none := by
  have hname := (Tag.isBuiltin ht hget).name_eq
  rw [call?, hdealing]
  cases hregion : h.isRegion <;> simp [hname, Tag.closes, Tag.bracket, hregion]

/-- The handlers that are called for regions are those that the validator has counted. -/
theorem calls_eq_brackets
    (hdeals : ∀ s ∈ strides, s.Deals answer (.withBuiltins hub) policy text) :
    strides.filterMap call? = (Registry.withBuiltins hub).brackets (strides.filterMap tag?) := by
  induction strides with
  | nil => rfl
  | cons s rest ih =>
    obtain ⟨hs, hrest⟩ := List.forall_mem_cons.mp hdeals
    have hlater := ih hrest
    unfold Deals at hs
    cases hdealing : s.dealing with
    | handled t h reply =>
      rw [hdealing] at hs
      obtain ⟨ht, -, hget, -⟩ := hs
      have htag : s.tag? = some t := by rw [tag?, hdealing]
      have hcall := call?_of_handled ht hget hdealing
      rw [List.filterMap_cons_some htag, Registry.brackets_of_get?_eq_some hget]
      cases hregion : h.isRegion with
      | false =>
        rw [hregion] at hcall
        rw [List.filterMap_cons_none hcall, hlater]
        rfl
      | true =>
        rw [hregion] at hcall
        rw [List.filterMap_cons_some hcall, hlater]
        rfl
    | swallowed t =>
      rw [hdealing] at hs
      have htag : s.tag? = some t := by rw [tag?, hdealing]
      have hcall : s.call? = none := by rw [call?, hdealing]
      rw [List.filterMap_cons_some htag, List.filterMap_cons_none hcall,
        Registry.brackets_of_get?_eq_none hs.2.2.1, hlater]
    | shown c =>
      have htag : s.tag? = none := by rw [tag?, hdealing]
      have hcall : s.call? = none := by rw [call?, hdealing]
      rw [List.filterMap_cons_none htag, List.filterMap_cons_none hcall, hlater]

/-- The regions that are open behind a stride. -/
def leave (opened : List String) (s : Stride) : List String :=
  s.call?.elim opened (Bracket.next opened)

theorem regions_concat : regions (strides ++ [s]) = leave (regions strides) s := by
  rw [regions, leave, List.filterMap_append]
  cases hcall : s.call? with
  | none => simp [hcall, regions]
  | some b => simpa [hcall, regions] using unclosed_concat b

theorem last_concat : last ctx (strides ++ [s]) = s.after := by
  simp [last]

variable (hanswer : ∀ {name : String} {h : Handler}, Registry.IsBuiltin hub name h →
  ∀ t ctx, answer h t ctx = Instant.respond h t ctx)
include hanswer

/-- As many speeds are saved as regions of speed are open, before a stride and behind it. -/
theorem length_savedSpeeds_after (hdeals : s.Deals answer (.withBuiltins hub) policy text)
    (hinner : ∀ name, s.call? = some ⟨name, true⟩ → opened.head? = some name)
    (hcount : s.context.savedSpeeds.length = opened.count "speedregion") :
    s.after.savedSpeeds.length = (leave opened s).count "speedregion" := by
  unfold Deals at hdeals
  cases hdealing : s.dealing with
  | swallowed t => simpa [after, leave, call?, hdealing] using hcount
  | shown c => simpa [after, leave, call?, hdealing, Context.append] using hcount
  | handled t h reply =>
    rw [hdealing] at hdeals
    obtain ⟨ht, -, hget, rfl⟩ := hdeals
    have hbuiltin := Tag.isBuiltin ht hget
    have htempo := (hbuiltin.obeys s.context).tempo
    rw [← hanswer hbuiltin] at htempo
    have hsaved : s.after.savedSpeeds = (s.context.tempo.after t).saved := by
      rw [← htempo, after, hdealing]
      rfl
    have hcall := call?_of_handled ht hget hdealing
    have hlength : s.context.tempo.saved.length = opened.count "speedregion" := hcount
    rw [hsaved, leave, hcall]
    -- Of all regions only those of speed save one, and they alone are counted.
    cases hregion : h.isRegion with
    | false =>
      have hspeed : t.name ≠ "speedregion" := by
        intro hname
        rw [hbuiltin.unique (.speedRegion hname)] at hregion
        cases hregion
      rw [Tempo.saved_after_of_ne hspeed, hlength]
      rfl
    | true =>
      rw [hregion] at hcall
      refine Tempo.length_saved_next hlength fun hclosing => hinner t.name ?_
      simp [hcall, Tag.bracket, hclosing]

/-- So it is behind any of the strides, if they close the innermost regions. -/
theorem length_savedSpeeds_last
    (hdeals : ∀ s ∈ strides, s.Deals answer (.withBuiltins hub) policy text)
    (hfinds : ∀ before s behind, strides = before ++ s :: behind →
      s.context = { last ctx before with cursor := s.position })
    (hinner : ∀ before s behind name, strides = before ++ s :: behind →
      s.call? = some ⟨name, true⟩ → (regions before).head? = some name)
    (hctx : ctx.savedSpeeds = []) {before behind : List Stride}
    (h : strides = before ++ behind) :
    (last ctx before).savedSpeeds.length = (regions before).count "speedregion" := by
  induction before using List.reverseRecOn generalizing behind with
  | nil => rw [last, List.foldl_nil, hctx]; rfl
  | append_singleton before s ih =>
    rw [List.append_assoc, List.singleton_append] at h
    have hs : s ∈ strides := by simp [h]
    have hbefore := ih h
    rw [last_concat, regions_concat]
    refine length_savedSpeeds_after hanswer (hdeals s hs) (hinner before s behind · h) ?_
    rw [hfinds before s behind h]
    exact hbefore

end Stride

section
variable {answer : Handler → Tag → Context → Reply} {hub : HubRef} {policy : UnknownTags}
  {text : String} {ctx : Context}

/-- A valid text nests its regions in play. -/
theorem nests_passage (hanswer : ∀ {name : String} {h : Handler}, Registry.IsBuiltin hub name h →
      ∀ t ctx, answer h t ctx = Instant.respond h t ctx)
    (hvalid : ((Registry.withBuiltins hub).validate text).isValid) (hctx : ctx.savedSpeeds = []) :
    Stride.Nests ((Registry.withBuiltins hub).brackets (Tag.lex text)) ctx
      (passage answer (.withBuiltins hub) policy text ctx) := by
  rw [Registry.validate, Registry.isValid_check] at hvalid
  obtain ⟨hknown, hunwinds⟩ := hvalid
  have htraverse : Stride.Traverse answer (.withBuiltins hub) policy text ctx
      (passage answer (.withBuiltins hub) policy text ctx) := traverse_passage
  have htags : (passage answer (.withBuiltins hub) policy text ctx).filterMap Stride.tag? =
      Tag.lex text := by
    refine filterMap_tag?_passage hknown fun t ht h hget ctx => ?_
    rw [hanswer (Tag.isBuiltin ht hget)]
    exact Instant.landing_respond (Registry.keepsToTags_withBuiltins hub) hget
      (Nat.le_of_lt (Tag.start_lt_stop ht))
  have hcalls := Stride.calls_eq_brackets htraverse.deals
  rw [htags] at hcalls
  rw [← hcalls] at hunwinds
  have hinner : ∀ before s behind name,
      passage answer (.withBuiltins hub) policy text ctx = before ++ s :: behind →
      s.call? = some ⟨name, true⟩ → (Stride.regions before).head? = some name := by
    intro before s behind name h hcall
    rw [h, List.filterMap_append, List.filterMap_cons_some hcall] at hunwinds
    obtain ⟨outer, hopened, -⟩ := unwinds_closing_iff.mp hunwinds.foldl
    exact congrArg List.head? hopened
  have hclosed : Stride.regions (passage answer (.withBuiltins hub) policy text ctx) = [] := by
    rw [← List.append_nil (List.filterMap _ _)] at hunwinds
    exact unwinds_nil_iff.mp hunwinds.foldl
  have hcount := @Stride.length_savedSpeeds_last answer hub policy text ctx _ hanswer
    htraverse.deals htraverse.finds hinner hctx
  refine ⟨hcalls, hinner, fun s hs hcall hnone => ?_, hclosed, ?_⟩
  · obtain ⟨before, behind, h⟩ := List.append_of_mem hs
    have hbefore := hcount h
    obtain ⟨outer, hopened⟩ := List.head?_eq_some_iff.mp (hinner before s behind _ h hcall)
    rw [htraverse.finds before s behind h] at hnone
    rw [show (Stride.last ctx before).savedSpeeds = [] from hnone, hopened,
      List.count_cons_self] at hbefore
    cases hbefore
  · have hend := hcount (List.append_nil _).symm
    rw [hclosed] at hend
    exact List.length_eq_zero_iff.mp hend

end

/-- No built-in handler breaks a session off, whatever the parameter. -/
theorem Registry.goesOn_withBuiltins (hub : HubRef) : (withBuiltins hub).GoesOn := by
  intro name h hget t ctx
  have hb := get?_withBuiltins.mp hget
  have hobeys := @IsBuiltin.obeys hub { t with name := Name.normalize name } h hb ctx
  rw [← hb.liveReply_eq] at hobeys
  exact hobeys.goesOn

/-- A text that is valid for the built-in handlers is played with its regions nested, by a session
that nothing disturbs and by an instant pass: whoever closes a region closes the innermost one, a
region of speed finds the speed to return to, and in the end no region is open and no speed left. -/
theorem Stage.History.nests {σ : Type} [TimeBase σ] {w : Surroundings σ} {registry : Registry}
    {clock : σ} {config : Config} {hub hub' : HubRef} {start st begun : Stage σ}
    {calls : List Command} {text : String} {speed : Option Single} {callback : Bool} {id : Nat}
    (hnew : Stage.new? registry clock config hub = some start) (h : History w start calls st)
    (hs : Request.Steps w (.start text speed callback, st) (.done id, begun))
    (hregistry : begun.registry = .withBuiltins hub')
    (hvalid : ((Registry.withBuiltins hub').validate text).isValid) :
    begun.Makes id (begun.passage text speed) ∧
    Stride.Nests ((Registry.withBuiltins hub').brackets (Tag.lex text))
      (Mode.live.context text (begun.speedOf speed)) (begun.passage text speed) ∧
    ∀ (policy : UnknownTags) (speed : Single),
      renderInstant (.withBuiltins hub') policy text (Tag.lex text) speed =
          Stride.rendering (Mode.instant.context text speed)
            (Instant.passage (.withBuiltins hub') policy text speed) ∧
        Stride.Nests ((Registry.withBuiltins hub').brackets (Tag.lex text))
          (Mode.instant.context text speed)
          (Instant.passage (.withBuiltins hub') policy text speed) := by
  have hgoes : begun.registry.GoesOn := hregistry ▸ Registry.goesOn_withBuiltins hub'
  refine ⟨h.makes hnew hs hgoes, ?_, fun policy speed => ⟨renderInstant_eq_passage .., ?_⟩⟩
  · rw [Stage.passage, Session.passage, hregistry]
    exact nests_passage (fun hb => hb.liveReply_eq) hvalid rfl
  · exact nests_passage (fun _ _ _ => rfl) hvalid rfl

/-- A region of speed with a bad parameter, and one inside it that closes first. -/
theorem Stage.History.nests_of_speedRegion :
    ∃ start begun : Stage Clock,
      Stage.new? (.withBuiltins .own) { isOpen := true } {} .own = some start ∧
      Request.Steps ⟨fun _ => True, fun _ => True⟩
        (.start "[speedregion=x]a[b]c[/b][/speedregion]" none true, start) (.done 1, begun) ∧
      begun.registry = .withBuiltins .own ∧
      ((Registry.withBuiltins .own).validate "[speedregion=x]a[b]c[/b][/speedregion]").isValid ∧
      begun.Undisturbed 1 (begun.turn true 0) ∧
      (begun.turn true 0).jobs.map (·.status.outcome?) = [some .completed] ∧
      Stride.Nests
        [⟨"speedregion", false⟩, ⟨"b", false⟩, ⟨"b", true⟩, ⟨"speedregion", true⟩]
        (Mode.live.context "[speedregion=x]a[b]c[/b][/speedregion]" (begun.speedOf none))
        (begun.passage "[speedregion=x]a[b]c[/b][/speedregion]" none) := by
  have hrun : ((Stage.new? (.withBuiltins .own) ({ isOpen := true } : Clock) {} .own).bind
      fun start => ((Request.start "[speedregion=x]a[b]c[/b][/speedregion]" none true).run?
        start).map fun begun =>
          ((begun.1, begun.2.turnFails true 0, begun.2.turnGoesOn 0),
            (begun.2.turn true 0).jobs.map (·.status.outcome?))) =
      some ((1, false, true), [some .completed]) := by
    decide +kernel
  simp only [Option.bind_eq_some_iff, Option.map_eq_some_iff, Prod.mk.injEq] at hrun
  obtain ⟨start, hnew, ⟨id, begun⟩, hbegun, ⟨rfl, hclock, hgoes⟩, houtcome⟩ := hrun
  have hsteps := Request.steps_of_run? ⟨fun _ => True, fun _ => True⟩ hbegun
  have hregistry : begun.registry = .withBuiltins .own := registry_of_start hnew hbegun
  obtain ⟨hvalid, hbrackets⟩ : ((Registry.withBuiltins .own).validate
      "[speedregion=x]a[b]c[/b][/speedregion]").isValid ∧ (Registry.withBuiltins .own).brackets
        (Tag.lex "[speedregion=x]a[b]c[/b][/speedregion]") =
          [⟨"speedregion", false⟩, ⟨"b", false⟩, ⟨"b", true⟩, ⟨"speedregion", true⟩] := by
    decide +kernel
  have hundisturbed : begun.Undisturbed 1 (begun.turn true 0) := by
    have hturn := Undisturbed.begin.turn true 0 hclock
    rwa [hgoes] at hturn
  obtain ⟨-, hnests, -⟩ := History.nests hnew .begin hsteps hregistry hvalid
  rw [hbrackets] at hnests
  exact ⟨start, begun, hnew, hsteps, hregistry, hvalid, hundisturbed, houtcome, hnests⟩

end TextReveal
