import TextReveal.Handler.Scripted
import TextReveal.Proofs.Offsets
/-!
Ways through a text. Whatever handlers claim of a text, a loop goes from boundary to boundary
between its characters, and past no tag but those that are claimed.
-/
namespace TextReveal
open Number

namespace Stride

/-- What a stride over a text may be: a tag that starts where the stride does goes to its handler,
or is left out if it has none; or the one character there is shown. -/
def Deals (answer : Handler → Tag → Context → Reply) (r : Registry) (policy : UnknownTags)
    (text : String) (s : Stride) : Prop :=
  match s.dealing with
  | .handled t h reply => t ∈ Tag.lex text ∧ t.start = s.position ∧ r.get? t.name = some h ∧
    reply = answer h t s.context
  | .swallowed t => t ∈ Tag.lex text ∧ t.start = s.position ∧ r.get? t.name = none ∧
    policy = .consume
  | .shown c => (c, s.position) ∈ Text.placed 0 text.toList ∧
    ∀ t ∈ Tag.lex text, t.start = s.position → r.get? t.name = none ∧ policy = .literal

/-- Where a stride wants the next one to begin, in a text of this size. -/
def goal (size : Nat) (s : Stride) : Nat :=
  match s.dealing with
  | .handled t _ reply => max t.stop (min (t.start + reply.response.consumed) size)
  | .swallowed t => t.stop
  | .shown c => s.position + c.utf8Size

/-- Whether a tag starts behind that of a stride, inside the span that its handler has claimed. -/
def Claims (s : Stride) (t : Tag) : Prop :=
  ∃ t' h reply, s.dealing = .handled t' h reply ∧ t'.start < t.start ∧
    t.start < t'.landing reply.response

/-- What holds of strides that lead through a text from a context on. -/
structure Traverse (answer : Handler → Tag → Context → Reply) (r : Registry) (policy : UnknownTags)
    (text : String) (ctx : Context) (strides : List Stride) : Prop where
  increasing : (strides.map position).Pairwise (· < ·)
  few : strides.length ≤ text.utf8ByteSize
  inside : ∀ s ∈ strides, s.position < text.utf8ByteSize
  valid : ∀ s ∈ strides, (⟨s.position⟩ : String.Pos.Raw).IsValid text
  deals : ∀ s ∈ strides, s.Deals answer r policy text
  /-- Each stride finds the context that those before it have left. -/
  finds : ∀ before s behind, strides = before ++ s :: behind →
    s.context = { last ctx before with cursor := s.position }
  begins : next text.utf8ByteSize strides = 0
  /-- Behind each stride it goes on at the first boundary that is not dealt with. -/
  lands : ∀ before s behind, strides = before ++ s :: behind →
    IsLeast {p | (⟨p⟩ : String.Pos.Raw).IsValid text ∧ s.goal text.utf8ByteSize ≤ p}
      (next text.utf8ByteSize behind)
  once : (strides.filterMap tag?).Sublist (Tag.lex text)
  /-- No tag is missed but those that are claimed. -/
  reached : ∀ t ∈ Tag.lex text,
    (∃ s ∈ strides, s.position = t.start) ↔ ¬∃ s ∈ strides, s.Claims t

end Stride

section
variable (answer : Handler → Tag → Context → Reply) (r : Registry) (policy : UnknownTags)
  (text : String) (ctx : Context)

/-- The strides through a whole text. -/
def passage : List Stride :=
  strides answer r policy text.toList 0 0 (Tag.lex text) ctx

end

section
variable {answer : Handler → Tag → Context → Reply} {r : Registry} {policy : UnknownTags}
  {text : String} {ctx : Context} {s : Stride} {t : Tag}

theorem dealing_of_mem_passage (hs : s ∈ passage answer r policy text ctx) :
    ∃ c, (c, s.position) ∈ Text.placed 0 text.toList ∧
      s.dealing =
        Dealing.at answer r policy c s.context ((Tag.lex text).find? (·.start = s.position)) := by
  have hall : (Tag.lex text).filter (0 ≤ ·.start) = Tag.lex text := by simp
  rw [passage, ← hall] at hs
  exact mem_strides ((Tag.pairwise_lex text).imp And.left) (Nat.le_refl 0) hs

theorem position_lt_landing (hs : s ∈ passage answer r policy text ctx) :
    s.position < s.landing := by
  obtain ⟨c, -, hdealing⟩ := dealing_of_mem_passage hs
  exact Stride.position_lt_landing (fun t => Tag.start_lt_stop) hdealing

theorem deals_of_mem_passage (hs : s ∈ passage answer r policy text ctx) :
    s.Deals answer r policy text := by
  obtain ⟨c, hplaced, hdealing⟩ := dealing_of_mem_passage hs
  unfold Stride.Deals
  cases hfind : (Tag.lex text).find? (·.start = s.position) with
  | none =>
    rw [hfind] at hdealing
    rw [hdealing]
    refine ⟨hplaced, fun t ht hstart => ?_⟩
    exact absurd hstart (by simpa using List.find?_eq_none.mp hfind t ht)
  | some t =>
    have hmem := List.mem_of_find?_eq_some hfind
    have hstart : t.start = s.position := by simpa using List.find?_some hfind
    rw [hfind, Dealing.at.eq_def] at hdealing
    cases hget : r.get? t.name with
    | some h =>
      simp only [hget] at hdealing
      rw [hdealing]
      exact ⟨hmem, hstart, hget, rfl⟩
    | none =>
      cases policy with
      | consume =>
        simp only [hget] at hdealing
        rw [hdealing]
        exact ⟨hmem, hstart, hget, rfl⟩
      -- Two tags do not start at one place, so no other can have a handler there.
      | literal =>
        simp only [hget] at hdealing
        rw [hdealing]
        refine ⟨hplaced, fun u hu hat => ?_⟩
        rw [← Tag.eq_of_start_eq hmem hu (hstart.trans hat.symm)]
        exact ⟨hget, rfl⟩

theorem min_landing_eq (hs : s ∈ passage answer r policy text ctx) :
    min s.landing text.utf8ByteSize = s.goal text.utf8ByteSize := by
  have hdeals := deals_of_mem_passage hs
  unfold Stride.Deals at hdeals
  unfold Stride.landing Stride.goal
  cases hdealing : s.dealing with
  | handled t h reply =>
    rw [hdealing] at hdeals
    have hstop := Tag.stop_le hdeals.1
    simp only [Tag.landing]
    omega
  | swallowed t =>
    rw [hdealing] at hdeals
    exact Nat.min_eq_left (Tag.stop_le hdeals.1)
  | shown c =>
    rw [hdealing] at hdeals
    have hend := Text.end_le_of_mem_placed hdeals.1
    rw [Nat.zero_add, Text.width_toList] at hend
    exact Nat.min_eq_left hend

/-- Only handlers make the loop pass over a tag. -/
theorem landing_le_of_not_claims (hs : s ∈ passage answer r policy text ctx) (ht : t ∈ Tag.lex text)
    (hclaims : ¬s.Claims t) (hbefore : s.position < t.start) : s.landing ≤ t.start := by
  have hdeals := deals_of_mem_passage hs
  unfold Stride.Deals at hdeals
  unfold Stride.landing
  cases hdealing : s.dealing with
  | handled u h reply =>
    rw [hdealing] at hdeals
    exact Nat.not_lt.mp fun hlt => hclaims ⟨u, h, reply, hdealing, hdeals.2.1 ▸ hbefore, hlt⟩
  | swallowed u =>
    rw [hdealing] at hdeals
    exact Tag.stop_le_start hdeals.1 ht (hdeals.2.1 ▸ hbefore)
  | shown c =>
    rw [hdealing] at hdeals
    obtain ⟨d, hd⟩ := Tag.exists_mem_placed ht
    obtain heq | hapart | hapart := eq_or_rel_of_mem (Text.placed_apart 0 text.toList) hdeals.1 hd
    · exact absurd (congrArg Prod.snd heq) (Nat.ne_of_lt hbefore)
    · exact hapart
    · simp only at hapart
      omega

theorem reached_iff (ht : t ∈ Tag.lex text) :
    (∃ s ∈ passage answer r policy text ctx, s.position = t.start) ↔
      ¬∃ s ∈ passage answer r policy text ctx, s.Claims t := by
  obtain ⟨c, hc⟩ := Tag.exists_mem_placed ht
  refine (exists_position_iff hc).trans ⟨?_, fun hclaims => ⟨Nat.zero_le _, fun s hs hbefore => ?_⟩⟩
  · rintro ⟨-, hlands⟩ ⟨s, hs, u, h, reply, hdealing, hbefore, hbehind⟩
    have hdeals := deals_of_mem_passage hs
    rw [Stride.Deals, hdealing] at hdeals
    have hlanding := hlands s hs (hdeals.2.1 ▸ hbefore)
    rw [Stride.landing, hdealing] at hlanding
    exact Nat.not_lt.mpr hlanding hbehind
  · exact landing_le_of_not_claims hs ht (fun h => hclaims ⟨s, hs, h⟩) hbefore

/-- Whatever handlers answer, the strides through a text begin between its characters, lead on to
its end, and miss no tag but those that are claimed. -/
theorem traverse_passage :
    Stride.Traverse answer r policy text ctx (passage answer r policy text ctx) where
  increasing := (Text.placed_increasing 0 text.toList).sublist map_position_strides
  few := by
    have hplaced : ((passage answer r policy text ctx).map Stride.position).Sublist
        ((Text.placed 0 text.toList).map Prod.snd) := map_position_strides
    have hfew := hplaced.length_le
    rw [List.length_map, List.length_map] at hfew
    exact hfew.trans (Text.width_toList text ▸ Text.length_placed_le 0 text.toList)
  inside s hs := by
    obtain ⟨c, hc, -⟩ := dealing_of_mem_passage hs
    have hinside := (Text.mem_placed hc).2
    rwa [Nat.zero_add, Text.width_toList] at hinside
  valid s hs := by
    obtain ⟨c, hc, -⟩ := dealing_of_mem_passage hs
    exact Text.isValid_iff_mem_bounds.mpr (Text.mem_bounds_of_mem_placed hc)
  deals s hs := deals_of_mem_passage hs
  finds before s behind h := context_of_strides h
  begins := by
    have hleast : IsLeast {p ∈ Text.bounds 0 text.toList | min 0 (0 + Text.width text.toList) ≤ p}
        (Stride.next (0 + Text.width text.toList) (passage answer r policy text ctx)) :=
      isLeast_next
    have hzero : 0 ∈ Text.bounds 0 text.toList := Text.mem_bounds.mpr ⟨[], text.toList, rfl, rfl⟩
    have hle := hleast.2 ⟨hzero, Nat.min_le_left ..⟩
    rw [Nat.zero_add, Text.width_toList] at hle
    exact Nat.le_zero.mp hle
  lands before s behind h := by
    have hs : s ∈ passage answer r policy text ctx := by simp [h]
    have hleast := isLeast_next_behind (fun s => position_lt_landing) h
    rw [Nat.zero_add, Text.width_toList, min_landing_eq hs] at hleast
    simpa only [Text.isValid_iff_mem_bounds] using hleast
  once := filterMap_tag?_strides
  reached t ht := reached_iff ht

end

/-- The context that a pass over a text begins with. -/
def Mode.context (mode : Mode) (text : String) (speed : Single) : Context :=
  { source := text, speed, mode }

/-- The strides of a session that goes on to its end. -/
def Session.passage (r : Registry) (policy : UnknownTags) (text : String) (speed : Single) :
    List Stride :=
  TextReveal.passage liveReply r policy text (Mode.live.context text speed)

/-- The strides of an instant pass. -/
def Instant.passage (r : Registry) (policy : UnknownTags) (text : String) (speed : Single) :
    List Stride :=
  TextReveal.passage respond r policy text (Mode.instant.context text speed)

theorem renderInstant_eq_passage (r : Registry) (policy : UnknownTags) (text : String)
    (speed : Single) : renderInstant r policy text (Tag.lex text) speed =
      Stride.rendering (Mode.instant.context text speed) (Instant.passage r policy text speed) :=
  Instant.walk_eq_strides ..

namespace Session
variable {id : Nat} {r : Registry} {policy : UnknownTags} {text : String} {speed : Single}

theorem acts_start_eq_passage (hgoes : r.GoesOn) :
    (start id policy text (Tag.lex text) speed).acts r =
      Stride.course 0 (passage r policy text speed) ++ (complete id).acts r :=
  acts_reveal_strides hgoes ..

theorem getLast?_acts_complete (before : List Act) :
    (before ++ (complete id).acts r).getLast? = some (.finished (some .completed)) := by
  rw [List.getLast?_append]
  rfl

end Session

namespace Stage
variable {σ : Type} [TimeBase σ]

/-- A session that cannot go on is over, or waits for a clock that holds it up. -/
theorem goesOn_or (status : Status) (st : Stage σ) :
    status.isOver ∨ goesOn status st ∨ ∃ seconds next, status = .asleep seconds next ∧
      (TimeBase.again st.clock seconds).1 = .pending := by
  cases status with
  | ready => exact .inr (.inl rfl)
  | ended => exact .inl rfl
  | crashed => exact .inl rfl
  | asleep seconds next =>
    cases hanswer : (TimeBase.again st.clock seconds).1 with
    | pending => exact .inr (.inr ⟨seconds, next, rfl, hanswer⟩)
    | elapsed => exact .inr (.inl (by simp [goesOn, hanswer]))
    | failed => exact .inr (.inl (by simp [goesOn, hanswer]))

/-- The session that is begun here, so long as nothing disturbs it, makes these strides in so many
turns, and completes. Until it is over, only the clock can hold it up. -/
def Makes (begun : Stage σ) (id : Nat) (strides : List Stride) : Prop :=
  ∃ bound, ∀ n after, begun.Undisturbed n after → n ≤ bound ∧
    ∃ status rest, after.jobs = [⟨id, status, false⟩] ∧
      after.record ++ rest = begun.record ++ (Stride.course 0 strides ++
        (Session.complete id).acts begun.registry).filterMap Act.note? ∧
      (status.isOver → status = .ended .completed ∧ rest = []) ∧
      (status.isOver ∨ after.turnGoesOn 0 ∨ ∃ seconds next, status = .asleep seconds next ∧
        (TimeBase.again after.clock seconds).1 = .pending)

/-- The speed of a session that is begun on a stage. -/
def speedOf (st : Stage σ) (speed : Option Single) : Single :=
  speed.getD st.player.config.defaultSpeed

/-- Its strides. -/
def passage (st : Stage σ) (text : String) (speed : Option Single) : List Stride :=
  Session.passage st.registry st.player.config.unknownTags text (st.speedOf speed)

theorem Makes.record {begun after : Stage σ} {id n : Nat} {strides : List Stride}
    (h : begun.Makes id strides) (hrun : begun.Undisturbed n after)
    (hover : after.jobs.map (·.status.isOver) = [true]) :
    after.record = begun.record ++ (Stride.course 0 strides ++
      (Session.complete id).acts begun.registry).filterMap Act.note? := by
  obtain ⟨bound, hbound⟩ := h
  obtain ⟨-, status, rest, hjobs, hrecord, hends, -⟩ := hbound n after hrun
  have hdone : status.isOver := by simpa [hjobs] using hover
  obtain ⟨-, rfl⟩ := hends hdone
  rwa [List.append_nil] at hrecord

variable {w : Surroundings σ} {registry : Registry} {clock : σ} {config : Config} {hub : HubRef}
  {start st begun : Stage σ} {calls : List Command} {text : String} {speed : Option Single}
  {callback : Bool} {id : Nat}

theorem History.makes (hnew : Stage.new? registry clock config hub = some start)
    (h : History w start calls st)
    (hs : Request.Steps w (.start text speed callback, st) (.done id, begun))
    (hgoes : begun.registry.GoesOn) : begun.Makes id (begun.passage text speed) := by
  obtain ⟨before, hjobs, rfl, rfl⟩ := h.launched hnew hs
  have hgoes : before.registry.GoesOn := hgoes
  have hacts : (before.opening text speed).acts before.registry = _ :=
    Session.acts_start_eq_passage hgoes
  have halone := jobs_launch before text speed callback
  rw [hjobs, List.nil_append] at halone
  refine ⟨(before.opening text speed).span before.registry, fun n after hrun => ?_⟩
  obtain ⟨hspan, status, hjobs', ⟨done, hdone, hrecord⟩, hends⟩ :=
    hrun.goes halone (hacts ▸ Session.getLast?_acts_complete _)
  refine ⟨hspan, status, (status.acts before.registry).filterMap Act.note?, hjobs', ?_,
    fun hover => ⟨hends hover, ?_⟩, ?_⟩
  · have hall : (before.opening text speed).acts before.registry =
        done ++ status.acts before.registry := hdone
    rw [hrecord, List.append_assoc, ← List.filterMap_append, ← hall, hacts]
    rfl
  · rw [hends hover]
    rfl
  · have hgoesOn : after.turnGoesOn 0 = goesOn status after := by simp [turnGoesOn, hjobs']
    rw [hgoesOn]
    exact goesOn_or status after

/-- Whatever handlers do to their contexts and claim of the text, a session that they do not break
off, its owner does not cancel and no clock fails makes its way through the text in so many turns,
and completes; and so does an instant pass. Where either of them acts are boundaries between
characters, in increasing order; at each it deals with the tag or the character there; behind a tag
it goes on at the first boundary that the tag and its handler leave; and it meets every tag but
those that start inside what a handler has claimed. -/
theorem History.traverses (hnew : Stage.new? registry clock config hub = some start)
    (h : History w start calls st)
    (hs : Request.Steps w (.start text speed callback, st) (.done id, begun))
    (hgoes : begun.registry.GoesOn) :
    begun.Makes id (begun.passage text speed) ∧
    Stride.Traverse Session.liveReply begun.registry begun.player.config.unknownTags text
      (Mode.live.context text (begun.speedOf speed)) (begun.passage text speed) ∧
    ∀ (r : Registry) (policy : UnknownTags) (text : String) (speed : Single),
      renderInstant r policy text (Tag.lex text) speed =
          Stride.rendering (Mode.instant.context text speed)
            (Instant.passage r policy text speed) ∧
        Stride.Traverse Instant.respond r policy text (Mode.instant.context text speed)
          (Instant.passage r policy text speed) :=
  ⟨h.makes hnew hs hgoes, traverse_passage,
    fun _ _ _ _ => ⟨renderInstant_eq_passage .., traverse_passage⟩⟩

end Stage

theorem Registry.get?_register_empty {hub : HubRef} {h h' : Handler} {name : String}
    (hget : ((Registry.empty hub).register h).get? name = some h') : h' = h := by
  have hempty (key : String) : (∅ : Std.TreeMap String Handler)[key]? = none :=
    Std.TreeMap.getElem?_emptyc
  rw [get?, register, Std.TreeMap.getElem?_insert] at hget
  split at hget
  · exact (Option.some.inj hget).symm
  · rw [show (Registry.empty hub).handlers = ∅ from rfl, hempty] at hget
    cases hget

/-- A handler that claims its tag and half of the character behind it. -/
theorem Stage.History.traverses_of_claim :
    ∃ (registry : Registry) (start begun : Stage Clock),
      Stage.new? registry { isOpen := true } {} .own = some start ∧
      Request.Steps ⟨fun _ => True, fun _ => True⟩ (.start "[x]é[b]c" none true, start)
        (.done 1, begun) ∧
      begun.registry.GoesOn ∧ begun.Undisturbed 1 (begun.turn true 0) ∧
      (begun.passage "[x]é[b]c" none).map Stride.position = [0, 5, 8] ∧
      Stride.Traverse Session.liveReply begun.registry begun.player.config.unknownTags "[x]é[b]c"
        (Mode.live.context "[x]é[b]c" (begun.speedOf none)) (begun.passage "[x]é[b]c" none) ∧
      (begun.turn true 0).record = begun.record ++
        (Stride.course 0 (begun.passage "[x]é[b]c" none) ++
          (Session.complete 1).acts begun.registry).filterMap Act.note? := by
  have hrun : ((Stage.new? ((Registry.empty .own).register
      (.scripted { name := "x", opening := { response := { consumed := 4 } } }))
      ({ isOpen := true } : Clock) {} .own).bind fun start =>
        ((Request.start "[x]é[b]c" none true).run? start).map fun begun =>
          ((begun.1, begun.2.turnFails true 0, begun.2.turnGoesOn 0),
            (begun.2.turn true 0).jobs.map (·.status.isOver),
            (begun.2.passage "[x]é[b]c" none).map Stride.position)) =
      some ((1, false, true), [true], [0, 5, 8]) := by
    decide +kernel
  simp only [Option.bind_eq_some_iff, Option.map_eq_some_iff, Prod.mk.injEq] at hrun
  obtain ⟨start, hnew, ⟨id, begun⟩, hbegun, ⟨rfl, hclock, hgoes⟩, hover, hpositions⟩ := hrun
  have hsteps := Request.steps_of_run? ⟨fun _ => True, fun _ => True⟩ hbegun
  have hregistry : begun.registry = _ := registry_of_start hnew hbegun
  have hgoesOn : begun.registry.GoesOn := by
    intro name h hget t ctx
    rw [hregistry] at hget
    obtain rfl := Registry.get?_register_empty hget
    rw [Registry.liveReply_of_untimed rfl, Instant.respond_of_not_isRegion rfl]
    rfl
  have hundisturbed : begun.Undisturbed 1 (begun.turn true 0) := by
    have hturn := Undisturbed.begin.turn true 0 hclock
    rwa [hgoes] at hturn
  obtain ⟨hmakes, htraverse, -⟩ := History.traverses hnew .begin hsteps hgoesOn
  exact ⟨_, start, begun, hnew, hsteps, hgoesOn, hundisturbed, hpositions, htraverse,
    hmakes.record hundisturbed hover⟩

end TextReveal
