import TextReveal.Proofs.Joining
import TextReveal.Proofs.Passing
/-!
Inert tags: those that nobody handles and that are swallowed, and those that are to set the speed
or to pause and give no number. Put into a text where nothing is open, such a tag shows the display
once more; all else is as it was, but further on behind it.
-/
namespace TextReveal
open Number

/-- A tag that comes to nothing. -/
inductive Tag.IsInert (hub : HubRef) (policy : UnknownTags) (t : Tag) : Prop
  | unknown (hpolicy : policy = .consume)
    (hget : (Registry.withBuiltins hub).get? t.name = none) : IsInert hub policy t
  | numberless (hname : t.name = "speed" ∨ t.name = "pause")
    (hseconds : Handler.seconds? t.parameter = none) : IsInert hub policy t

/-- A tag that is taken, after which only the display is shown, as it was before. -/
structure Tag.IsMute (hub : HubRef) (policy : UnknownTags) (t : Tag) : Prop where
  takes : (Registry.withBuiltins hub).takes policy t
  notes : Act.notes (t.acts hub) = []
  tempo (tempo : Tempo) : tempo.after t = tempo
  isClear : (Piece.tag t).isClear = false
  shown : (Piece.tag t).shown policy = ""

namespace Tag
variable {hub : HubRef} {policy : UnknownTags} {t : Tag}

theorem IsInert.isMute (h : t.IsInert hub policy) (hplain : Name.normalize t.name = t.name) :
    t.IsMute hub policy := by
  cases h with
  | unknown hpolicy hget =>
    subst hpolicy
    obtain ⟨hidle, hclear, hshown⟩ := idle_of_get?_eq_none hplain hget .consume
    exact ⟨Registry.takes_iff.mpr (.inr rfl), by rw [hidle.acts]; rfl, hidle.tempo, hclear, hshown⟩
  | numberless hname hseconds =>
    have hbuiltin : ((Registry.withBuiltins hub).get? t.name).isSome := by
      obtain hname | hname := hname
      · rw [Registry.get?_withBuiltins.mpr (.speed (by rw [hplain, hname]))]
        rfl
      · rw [Registry.get?_withBuiltins.mpr (.pause (by rw [hplain, hname]))]
        rfl
    refine ⟨Registry.takes_iff.mpr (.inl hbuiltin), ?_, fun tempo => ?_, ?_, ?_⟩
    · rw [Stance.notes_tagActs, pause?, action?, hseconds]
      obtain hname | hname := hname <;> simp [hname]
    · obtain hname | hname := hname <;> simp [Tempo.after, hname, hseconds]
    · obtain hname | hname := hname <;> simp [Piece.isClear, hname]
    · obtain hname | hname := hname <;> simp [Piece.shown, hname]

end Tag

namespace Entry

/-- What a session asks its clock for. -/
def asked? : Entry → Option Single
  | asked seconds => some seconds
  | _ => none

/-- What is revealed, and where. -/
def revealed? : Entry → Option (String × Nat)
  | published (.revealed text offset) => some (text, offset)
  | _ => none

/-- An entry about a place that is so many bytes further on. -/
def moved (n : Nat) : Entry → Entry
  | published (.revealed text offset) => published (.revealed text (offset + n))
  | entry => entry

theorem asked?_moved (n : Nat) (entry : Entry) : (entry.moved n).asked? = entry.asked? := by
  unfold moved
  split <;> rfl

theorem payload?_moved (hub : HubRef) (n : Nat) (entry : Entry) :
    (entry.moved n).payload? hub = entry.payload? hub := by
  unfold moved
  split <;> rfl

theorem revealed?_moved (n : Nat) (entry : Entry) :
    (entry.moved n).revealed? = entry.revealed?.map (Prod.map id (· + n)) := by
  cases entry with
  | published event => cases event <;> rfl
  | _ => rfl

end Entry

namespace Piece
variable {policy : UnknownTags}

/-- What the loop takes as a whole does not depend on where it stands. -/
theorem flatMap_units_moved (r : Registry) (n : Nat) (pieces : List Piece) :
    (pieces.map (moved n)).flatMap (units (r.takes policy)) =
      (pieces.flatMap (units (r.takes policy))).map (moved n) := by
  induction pieces with
  | nil => rfl
  | cons p rest ih =>
    rw [List.map_cons, List.flatMap_cons, List.flatMap_cons, List.map_append, ih]
    congr 1
    cases p with
    | plain c => rfl
    | tag t =>
      show (if r.takes policy t then _ else _) = _
      rw [units]
      split
      · rfl
      · rw [List.map_map]
        rfl

theorem flatMap_chars_units (takes : Tag → Bool) (pieces : List Piece) :
    (pieces.flatMap (units takes)).flatMap chars = pieces.flatMap chars := by
  induction pieces with
  | nil => rfl
  | cons p rest ih =>
    rw [List.flatMap_cons, List.flatMap_append, ih, List.flatMap_cons]
    congr 1
    cases p with
    | plain c => rfl
    | tag t =>
      rw [units]
      split
      · exact List.append_nil _
      · exact flatMap_chars_plain _

theorem moved_comm (n k : Nat) (p : Piece) : (p.moved n).moved k = (p.moved k).moved n := by
  cases p with
  | plain c => rfl
  | tag t => simp only [moved, Tag.moved, Nat.add_right_comm]

end Piece

namespace Stance
variable {hub : HubRef} {policy : UnknownTags} {n : Nat} {s s' : Stance}

theorem notes_acting_cons (s : Stance) (p : Piece) (units : List Piece) :
    Act.notes (acting hub policy (s.course policy (p :: units))) =
      Act.notes (s.acts hub policy p) ++
        Act.notes (acting hub policy ((s.after policy p).course policy units)) :=
  Act.notes_append _ _

/-- The same stance, but so many bytes further on. The steps do not matter to what is told. -/
structure Ahead (n : Nat) (s s' : Stance) : Prop where
  position : s'.position = s.position + n
  tempo : s'.tempo = s.tempo
  shown : s'.shown = s.shown

theorem Ahead.after (h : Ahead n s s') (k : Nat) (p : Piece) :
    Ahead n (s.after policy p) (s'.after policy (p.moved k)) := by
  obtain ⟨hposition, htempo, hshown⟩ := h
  cases p with
  | plain c =>
    refine ⟨?_, htempo, ?_⟩
    · simp only [Stance.after, Piece.moved, hposition, Nat.add_right_comm]
    · simp only [Stance.after, Piece.moved, hshown]
  | tag t =>
    refine ⟨?_, ?_, ?_⟩
    · simp only [Stance.after, Piece.moved, hposition, Nat.add_right_comm]
      rfl
    · simp only [Stance.after, Piece.moved, htempo]
      rfl
    · simp only [Stance.after, Piece.moved, hshown]
      rfl

theorem Ahead.notes_acts (h : Ahead n s s') (k : Nat) (p : Piece) :
    Act.notes (s'.acts hub policy (p.moved k)) =
      (Act.notes (s.acts hub policy p)).map (Entry.moved n) := by
  have hshown : (s'.after policy (p.moved k)).shown = (s.after policy p).shown :=
    (h.after k p).shown
  rw [Stance.notes_acts, Stance.notes_acts, hshown]
  cases p with
  | plain c =>
    dsimp only [Piece.moved]
    rw [h.position, h.tempo]
    split <;> rfl
  | tag t =>
    dsimp only [Piece.moved]
    rw [List.map_append, List.map_append, List.map_map, List.map_map]
    rfl

/-- The same units from further on: the same is told, further on. -/
theorem Ahead.notes_acting (h : Ahead n s s') (k : Nat) (units : List Piece) :
    Act.notes (acting hub policy (s'.course policy (units.map (Piece.moved k)))) =
      (Act.notes (acting hub policy (s.course policy units))).map (Entry.moved n) := by
  induction units generalizing s s' with
  | nil => rfl
  | cons p units ih =>
    rw [List.map_cons, notes_acting_cons, notes_acting_cons, h.notes_acts, ih (h.after k p),
      List.map_append]

theorem position_foldl_after (s : Stance) (units : List Piece) :
    (units.foldl (after policy) s).position =
      s.position + Text.width (units.flatMap Piece.chars) := by
  induction units generalizing s with
  | nil => rfl
  | cons p units ih =>
    rw [List.foldl_cons, ih, List.flatMap_cons, Text.width_append, ← Nat.add_assoc]
    rfl

/-- Only characters are revealed, each where it stands. -/
theorem revealed_acts (hub : HubRef) (policy : UnknownTags) (s : Stance) (p : Piece) :
    (Act.notes (s.acts hub policy p)).filterMap Entry.revealed? = match p with
      | .plain c => [(c.toString, s.position)]
      | .tag _ => [] := by
  rw [notes_acts]
  cases p with
  | plain c =>
    dsimp only
    split <;> rfl
  | tag t =>
    simp [Entry.revealed?, List.filterMap_map, Function.comp_def]

/-- Where the loop over these units reveals anything. -/
theorem bounds_of_revealed {units : List Piece} {text : String} {offset : Nat}
    (h : (text, offset) ∈
      (Act.notes (acting hub policy (s.course policy units))).filterMap Entry.revealed?) :
    s.position ≤ offset ∧ offset < s.position + Text.width (units.flatMap Piece.chars) := by
  -- Each step starts where the one before it has ended.
  induction units generalizing s with
  | nil => cases h
  | cons p units ih =>
    have hposition : (s.after policy p).position = s.position + Text.width p.chars := rfl
    rw [notes_acting_cons, List.filterMap_append] at h
    rw [List.flatMap_cons, Text.width_append]
    obtain h | h := List.mem_append.mp h
    · rw [revealed_acts] at h
      cases p with
      | plain c =>
        have hc := c.utf8Size_pos
        cases List.mem_singleton.mp h
        simp only [Piece.chars, Text.width]
        omega
      | tag t => cases h
    · have hlater := ih h
      omega

end Stance

/-- What is told where a mute tag has been put in, beside what is told without it: the display once
more, and all behind it so much further on. -/
inductive Entry.Inserted (seam n : Nat) : List Entry → List Entry → Prop
  | intro {before behind : List Entry} {text : String}
    (hbefore : ∀ revealed ∈ before.filterMap Entry.revealed?, revealed.2 < seam)
    (hbehind : ∀ revealed ∈ behind.filterMap Entry.revealed?, seam ≤ revealed.2) :
    Inserted seam n (before ++ .frame text :: behind.map (moved n)) (before ++ behind)

namespace Entry

/-- What is revealed from this byte on is revealed so much further on. -/
def shifted (seam n : Nat) (r : String × Nat) : String × Nat :=
  (r.1, if r.2 < seam then r.2 else r.2 + n)

variable {seam n : Nat} {told told' : List Entry}

theorem Inserted.filterMap_eq {α : Type} {f : Entry → Option α} (h : Inserted seam n told told')
    (hframe : ∀ text, f (.frame text) = none) (hmoved : ∀ entry, f (entry.moved n) = f entry) :
    told.filterMap f = told'.filterMap f := by
  cases h
  rw [List.filterMap_append, List.filterMap_cons_none (hframe _), List.filterMap_map,
    List.filterMap_append]
  exact congrArg _ (List.filterMap_congr fun entry _ => hmoved entry)

theorem Inserted.revealed (h : Inserted seam n told told') :
    told.filterMap revealed? = (told'.filterMap revealed?).map (shifted seam n) := by
  cases h with
  | @intro before behind text hbefore hbehind =>
    have hhead : (before.filterMap revealed?).map (shifted seam n) =
        before.filterMap revealed? := by
      refine (List.map_congr_left fun r hr => ?_).trans (List.map_id _)
      rw [shifted, if_pos (hbefore r hr)]
      rfl
    have htail : (behind.map (moved n)).filterMap revealed? =
        (behind.filterMap revealed?).map (shifted seam n) := by
      rw [List.filterMap_map, List.map_filterMap]
      refine List.filterMap_congr fun entry hentry => ?_
      rw [Function.comp_apply, revealed?_moved]
      cases hrevealed : entry.revealed? with
      | none => rfl
      | some r =>
        have hlater := hbehind r (List.mem_filterMap.mpr ⟨entry, hentry, hrevealed⟩)
        rw [Option.map_some, Option.map_some, shifted, if_neg (Nat.not_lt.mpr hlater)]
        rfl
    rw [List.filterMap_append, List.filterMap_cons_none rfl, List.filterMap_append, List.map_append,
      hhead, htail]

end Entry

theorem Stance.inserted {hub : HubRef} {policy : UnknownTags} {t : Tag} (h : t.IsMute hub policy)
    (s : Stance) (before behind : List Piece) :
    Entry.Inserted (s.position + Text.width (before.flatMap Piece.chars))
      (Text.width t.fullText.toList)
      (Act.notes (acting hub policy (s.course policy
        (before ++ .tag t :: behind.map (Piece.moved (Text.width t.fullText.toList))))))
      (Act.notes (acting hub policy (s.course policy (before ++ behind)))) := by
  -- Up to the tag both loops are one; behind it they differ in where they are and in nothing else.
  have hseam : (before.foldl (after policy) s).position = _ := position_foldl_after s before
  rw [← hseam, course_append, course_append, acting_append, acting_append, Act.notes_append,
    Act.notes_append, notes_acting_cons]
  generalize before.foldl (after policy) s = seam at *
  have hahead : Ahead (Text.width t.fullText.toList) seam (seam.after policy (.tag t)) := by
    refine ⟨rfl, h.tempo _, ?_⟩
    rw [after, h.isClear, h.shown, if_neg Bool.false_ne_true]
    exact String.append_empty
  have hframe : Act.notes (seam.acts hub policy (.tag t)) =
      [.frame (seam.after policy (.tag t)).shown] := by
    rw [notes_acts]
    dsimp only
    rw [← notes_tagActs, h.notes]
    rfl
  rw [hahead.notes_acting, hframe]
  refine .intro ?_ ?_
  · rintro ⟨text, offset⟩ hrevealed
    exact hseam ▸ (bounds_of_revealed hrevealed).2
  · rintro ⟨text, offset⟩ hrevealed
    exact (bounds_of_revealed hrevealed).1

theorem Tag.IsMute.moved {hub : HubRef} {policy : UnknownTags} {t : Tag} (h : t.IsMute hub policy)
    (n : Nat) : (t.moved n).IsMute hub policy :=
  ⟨h.takes, h.notes, h.tempo, h.isClear, h.shown⟩

namespace Text

/-- What a session over the built-in handlers tells of a text. -/
def story (hub : HubRef) (policy : UnknownTags) (speed : Single) (text : String) : List Entry :=
  Act.notes (Stance.acting hub policy (Stance.course policy ⟨0, 0, ⟨speed, []⟩, ""⟩
    ((Piece.cut text).flatMap (Piece.units ((Registry.withBuiltins hub).takes policy)))))

/-- What an instant pass of the built-in handlers makes of a text. -/
def rendering (hub : HubRef) (policy : UnknownTags) (speed : Single) (text : String) : Rendering :=
  renderInstant (.withBuiltins hub) policy text (Tag.lex text) speed

variable {hub : HubRef} {policy : UnknownTags} {a u : String} {t : Tag}

/-- A tag put in is one more piece. -/
theorem cut_insert (b : String) (hclosed : IsClosed a) (ht : t ∈ Tag.lex u)
    (hspan : t.fullText = u) :
    Piece.cut (a ++ b) = Piece.cut a ++ (Piece.cut b).map (Piece.moved a.utf8ByteSize) ∧
      Piece.cut (a ++ u ++ b) = Piece.cut a ++ .tag (t.moved a.utf8ByteSize) ::
        ((Piece.cut b).map (Piece.moved a.utf8ByteSize)).map (Piece.moved u.utf8ByteSize) := by
  obtain ⟨hcut, hu⟩ := Piece.cut_of_fullText ht hspan
  refine ⟨Piece.cut_append hclosed b, ?_⟩
  have hswap : ((Piece.cut b).map (Piece.moved u.utf8ByteSize)).map (Piece.moved a.utf8ByteSize) =
      ((Piece.cut b).map (Piece.moved a.utf8ByteSize)).map (Piece.moved u.utf8ByteSize) := by
    rw [List.map_map, List.map_map]
    exact List.map_congr_left fun p _ => Piece.moved_comm _ _ p
  rw [String.append_assoc, Piece.cut_append hclosed, Piece.cut_append hu, hcut, List.map_append,
    hswap]
  rfl

theorem story_insert (speed : Single) (b : String) (hclosed : IsClosed a) (ht : t ∈ Tag.lex u)
    (hspan : t.fullText = u) (hinert : t.IsInert hub policy) :
    Entry.Inserted a.utf8ByteSize u.utf8ByteSize
      (story hub policy speed (a ++ u ++ b)) (story hub policy speed (a ++ b)) := by
  obtain ⟨hplain, hmore⟩ := cut_insert b hclosed ht hspan
  -- In the longer text the tag stands at the end of `a`, and is as mute there as in `u`.
  have hmute := (hinert.isMute (Tag.normalize_name ht)).moved a.utf8ByteSize
  have hfull : Text.width (t.moved a.utf8ByteSize).fullText.toList = u.utf8ByteSize := by
    rw [← hspan]
    exact Text.width_toList _
  have hinserted := Stance.inserted hmute ⟨0, 0, ⟨speed, []⟩, ""⟩
    ((Piece.cut a).flatMap (Piece.units ((Registry.withBuiltins hub).takes policy)))
    (((Piece.cut b).map (Piece.moved a.utf8ByteSize)).flatMap
      (Piece.units ((Registry.withBuiltins hub).takes policy)))
  rw [hfull, Piece.flatMap_chars_units, Piece.chars_cut, Text.width_toList,
    Nat.zero_add] at hinserted
  rw [story, story, hplain, hmore, List.flatMap_append, List.flatMap_append, List.flatMap_cons,
    Piece.flatMap_units_moved _ u.utf8ByteSize, Piece.units, if_pos hmute.takes]
  exact hinserted

/-- An instant pass shows the same with the tag and without it. -/
theorem buffer_rendering_insert (speed : Single) (b : String) (hclosed : IsClosed a)
    (ht : t ∈ Tag.lex u) (hspan : t.fullText = u) (hinert : t.IsInert hub policy) :
    (rendering hub policy speed (a ++ u ++ b)).context.buffer =
      (rendering hub policy speed (a ++ b)).context.buffer := by
  have htidy := Registry.keepsToTags_withBuiltins hub
  have hmute := (hinert.isMute (Tag.normalize_name ht)).moved a.utf8ByteSize
  obtain ⟨hplain, hmore⟩ := cut_insert b hclosed ht hspan
  have hmoved (pieces : List Piece) (before : String) :
      (pieces.map (Piece.moved u.utf8ByteSize)).foldl
          (fun shown p => if p.isClear then "" else shown ++ p.shown policy) before =
        pieces.foldl (fun shown p => if p.isClear then "" else shown ++ p.shown policy) before := by
    rw [List.foldl_map]
    congr 1
    funext shown p
    cases p <;> rfl
  rw [rendering, rendering, renderInstant_eq_read htidy, renderInstant_eq_read htidy,
    Instant.buffer_read (Piece.placed_cut _), Instant.buffer_read (Piece.placed_cut _), hplain,
    hmore, List.foldl_append, List.foldl_append, List.foldl_cons, hmute.isClear, hmute.shown,
    if_neg Bool.false_ne_true, String.append_empty, hmoved]

end Text

/-- A session over the built-in handlers that a call has just started, in some history of some
player: its number and its text, the speed it starts at, and what becomes of unknown tags. -/
inductive Stage.Begins {σ : Type} [TimeBase σ] (hub : HubRef) (policy : UnknownTags) (text : String)
    (speed : Single) (id : Nat) : Stage σ → Prop
  | start {w : Surroundings σ} {registry : Registry} {clock : σ} {config : Config} {hub' : HubRef}
    {start st begun : Stage σ} {calls : List Command} {given : Option Single} {callback : Bool}
    (hnew : Stage.new? registry clock config hub' = some start) (h : History w start calls st)
    (hs : Request.Steps w (.start text given callback, st) (.done id, begun))
    (hregistry : begun.registry = .withBuiltins hub)
    (hpolicy : begun.player.config.unknownTags = policy)
    (hspeed : given.getD begun.player.config.defaultSpeed = speed) :
    Begins hub policy text speed id begun

/-- If nobody cancels the session and no clock fails it, it goes on only so often, and then has
completed. -/
def Stage.Completes {σ : Type} [TimeBase σ] (id : Nat) (begun : Stage σ) : Prop :=
  ∃ bound, ∀ n after, begun.Undisturbed n after → n ≤ bound ∧
    ∃ status, after.jobs = [⟨id, status, false⟩] ∧ (status.isOver → status = .ended .completed)

/-- The session goes from its start to its end, and nobody cancels it and no clock fails it. -/
def Stage.Performs {σ : Type} [TimeBase σ] (id : Nat) (begun after : Stage σ) : Prop :=
  ∃ n status, begun.Undisturbed n after ∧ after.jobs = [⟨id, status, false⟩] ∧ status.isOver

namespace Stage
variable {σ : Type} [TimeBase σ] {hub : HubRef} {policy : UnknownTags} {text : String}
  {speed : Single} {id : Nat} {begun after : Stage σ}

theorem Begins.exists_launch (h : begun.Begins hub policy text speed id) :
    ∃ (before : Stage σ) (given : Option Single) (callback : Bool),
      begun = (before.launch text given callback).2 ∧
      begun.jobs = [⟨id, before.opening text given, false⟩] ∧
      before.registry = .withBuiltins hub ∧ before.player.config.unknownTags = policy ∧
      given.getD before.player.config.defaultSpeed = speed := by
  obtain ⟨hnew, h, hs, hregistry, hpolicy, hspeed⟩ := h
  rename_i given callback
  obtain ⟨before, hjobs, rfl, rfl⟩ := h.launched hnew hs
  have halone := jobs_launch before text given callback
  rw [hjobs, List.nil_append] at halone
  exact ⟨before, given, callback, rfl, halone, hregistry, hpolicy, hspeed⟩

theorem Begins.completes (h : begun.Begins hub policy text speed id) : Completes id begun := by
  obtain ⟨before, given, callback, rfl, halone, hregistry, -, -⟩ := h.exists_launch
  refine ⟨(before.opening text given).span before.registry, fun n after hrun => ?_⟩
  obtain ⟨hspan, status, hjobs, -, hends⟩ :=
    hrun.goes halone (beats_opening before hregistry text given).2
  exact ⟨hspan, status, hjobs, hends⟩

/-- The first session of a player begins as its configuration says. -/
theorem Begins.of_new? {clock : σ} {config : Config} {hub' : HubRef} {start : Stage σ}
    {given : Option Single} {callback : Bool}
    (hnew : Stage.new? (.withBuiltins hub) clock config hub' = some start)
    (hbegun : (Request.start text given callback).run? start = some (id, begun)) :
    begun.Begins hub config.unknownTags text (given.getD config.defaultSpeed) id := by
  have hconfig : begun.player.config = config := by
    obtain ⟨channel, -, rfl⟩ := Option.map_eq_some_iff.mp hnew
    cases hbegun
    rfl
  exact .start hnew .begin (Request.steps_of_run? ⟨fun _ => True, fun _ => True⟩ hbegun)
    (registry_of_start hnew hbegun) (by rw [hconfig]) (by rw [hconfig])

/-- A session that is over in its first turn. -/
theorem Begins.performs_turn (h : begun.Begins hub policy text speed id)
    (hclock : begun.turnFails true 0 = false)
    (hover : (begun.turn true 0).jobs.map (·.status.isOver) = [true]) :
    Performs id begun (begun.turn true 0) := by
  have hturn := Undisturbed.begin.turn true 0 hclock
  obtain ⟨bound, hbound⟩ := h.completes
  obtain ⟨-, status, hjobs, -⟩ := hbound _ _ hturn
  exact ⟨_, status, hturn, hjobs, by simpa [hjobs] using hover⟩

theorem Begins.deeds (h : begun.Begins hub policy text speed id)
    (hperforms : Performs id begun after) :
    after.deeds = begun.deeds ++ Text.story hub policy speed text := by
  obtain ⟨n, last, hrun, hjobs, hover⟩ := hperforms
  obtain ⟨before, given, callback, rfl, halone, hregistry, rfl, rfl⟩ := h.exists_launch
  have hstory : Act.deeds ((before.opening text given).acts before.registry) =
      Text.story hub before.player.config.unknownTags
        (given.getD before.player.config.defaultSpeed) text := by
    rw [deeds_opening before hregistry, script, course, hregistry, Act.deeds]
    exact List.filter_eq_self.mpr fun _ => Stance.isDeed_of_mem_notes_acting
  rw [← hstory]
  exact hrun.deeds_of_isOver halone hjobs hover

theorem Begins.display (h : begun.Begins hub policy text speed id)
    (hperforms : Performs id begun after) :
    after.display = (Text.rendering hub policy speed text).context.buffer := by
  obtain ⟨n, last, hrun, hjobs, hover⟩ := hperforms
  obtain ⟨before, given, callback, rfl, halone, hregistry, rfl, rfl⟩ := h.exists_launch
  have htimeless : before.registry.Timeless Context.SameText text := by
    rw [hregistry]
    exact Registry.timeless_withBuiltins hub text
  obtain ⟨-, status, hstatus, -, hends⟩ :=
    hrun.goes halone (beats_opening before hregistry text given).2
  obtain ⟨status', hcourse⟩ := hrun.onCourse halone
  obtain rfl : status = last := by simpa [hjobs] using hstatus.symm
  obtain rfl : status' = status := by simpa [hjobs] using hcourse.jobs.symm
  -- The last of its acts is its completion, so it has neither broken down nor given up.
  obtain hcrashed | ⟨hcancelled, -⟩ | ⟨-, hfinal⟩ :=
    hcourse.showsFinal Context.likeness_sameText htimeless hover
  · rw [hends hover] at hcrashed
    cases hcrashed
  · rw [hends hover] at hcancelled
    cases hcancelled
  · rw [hfinal.instant, hcourse.registry, hcourse.config, Text.rendering, ← hregistry]
    rfl

end Stage

/-- Inert tags can be put in anywhere. Of two sessions over the built-in handlers, at the same speed
and with the same policy for unknown tags, one has an inert tag more in its text, where nothing is
open. Left to themselves, with no wait that fails, both come to an end. Then they show the same,
have asked for the same waits, have fired the same payloads and have revealed the same characters,
at offsets that differ behind the tag by its width. Instant passes over the two texts show the same
as well, and fire nothing. -/
theorem Stage.Begins.inserts {σ σ' : Type} [TimeBase σ] [TimeBase σ'] {hub : HubRef}
    {policy : UnknownTags} {speed : Single} {a u b : String} {t : Tag} {id id' : Nat}
    {begun : Stage σ} {begun' : Stage σ'} (hclosed : Text.IsClosed a) (ht : t ∈ Tag.lex u)
    (hspan : t.fullText = u) (hinert : t.IsInert hub policy)
    (h : begun.Begins hub policy (a ++ u ++ b) speed id)
    (h' : begun'.Begins hub policy (a ++ b) speed id') :
    (Completes id begun ∧ Completes id' begun') ∧
    (∀ after after', Performs id begun after → Performs id' begun' after' →
      after.display = after'.display ∧ ∃ told told',
        after.deeds = begun.deeds ++ told ∧ after'.deeds = begun'.deeds ++ told' ∧
        told.filterMap Entry.asked? = told'.filterMap Entry.asked? ∧
        (∀ hub, told.filterMap (Entry.payload? hub) = told'.filterMap (Entry.payload? hub)) ∧
        told.filterMap Entry.revealed? = (told'.filterMap Entry.revealed?).map
          (Entry.shifted a.utf8ByteSize u.utf8ByteSize)) ∧
    (Text.rendering hub policy speed (a ++ u ++ b)).context.buffer =
      (Text.rendering hub policy speed (a ++ b)).context.buffer ∧
    (Text.rendering hub policy speed (a ++ u ++ b)).signals = [] ∧
    (Text.rendering hub policy speed (a ++ b)).signals = [] := by
  have hbuffer := Text.buffer_rendering_insert speed b hclosed ht hspan hinert
  refine ⟨⟨h.completes, h'.completes⟩, fun after after' hperforms hperforms' => ⟨?_, ?_⟩, hbuffer,
    Registry.signals_renderInstant .., Registry.signals_renderInstant ..⟩
  · rw [h.display hperforms, h'.display hperforms', hbuffer]
  · have hinserted := Text.story_insert speed b hclosed ht hspan hinert
    refine ⟨_, _, h.deeds hperforms, h'.deeds hperforms', ?_, fun hub' => ?_, ?_⟩
    · exact hinserted.filterMap_eq (fun _ => rfl) (Entry.asked?_moved _)
    · exact hinserted.filterMap_eq (fun _ => rfl) (Entry.payload?_moved hub' _)
    · exact hinserted.revealed

/-- A pause without end, behind a letter of two bytes and a tag. -/
theorem Stage.Begins.inserts_of_pause :
    ∃ (t : Tag) (begun begun' after after' : Stage Clock),
      Text.IsClosed "é[b]" ∧ t ∈ Tag.lex "[pause=inf]" ∧ t.fullText = "[pause=inf]" ∧
      t.IsInert .own .consume ∧
      begun.Begins .own .consume ("é[b]" ++ "[pause=inf]" ++ "o[action=x]k")
        ⟨false, 0x3D4CCCCD⟩ 1 ∧
      begun'.Begins .own .consume ("é[b]" ++ "o[action=x]k") ⟨false, 0x3D4CCCCD⟩ 1 ∧
      Performs 1 begun after ∧ Performs 1 begun' after' ∧
      after.display = "é<b>ok" ∧ after'.display = "é<b>ok" ∧
      ∃ told told', after.deeds = begun.deeds ++ told ∧ after'.deeds = begun'.deeds ++ told' ∧
        told'.filterMap Entry.revealed? = [("é", 0), ("o", 5), ("k", 16)] ∧
        told.filterMap Entry.revealed? = [("é", 0), ("o", 16), ("k", 27)] := by
  have hplays (text : String) (revealed : List (String × Nat))
      (hrun : ((Stage.new? (.withBuiltins .own) ({ isOpen := true } : Clock) {} .own).bind
        fun start => ((Request.start text none true).run? start).map fun begun =>
          ((begun.1, begun.2.turnFails true 0), (begun.2.turn true 0).jobs.map (·.status.isOver),
            (begun.2.turn true 0).display,
            (begun.2.turn true 0).deeds.filterMap Entry.revealed?)) =
        some ((1, false), [true], "é<b>ok", revealed)) :
      ∃ begun : Stage Clock, begun.Begins .own .consume text ⟨false, 0x3D4CCCCD⟩ 1 ∧
        Performs 1 begun (begun.turn true 0) ∧ (begun.turn true 0).display = "é<b>ok" ∧
        begun.deeds.filterMap Entry.revealed? = [] ∧
        (begun.turn true 0).deeds.filterMap Entry.revealed? = revealed := by
    simp only [Option.bind_eq_some_iff, Option.map_eq_some_iff, Prod.mk.injEq] at hrun
    obtain ⟨start, hnew, ⟨id, begun⟩, hbegun, ⟨rfl, hclock⟩, hover, hshown, hrevealed⟩ := hrun
    have hbegins : begun.Begins .own .consume text ⟨false, 0x3D4CCCCD⟩ 1 := .of_new? hnew hbegun
    have hfresh : begun.deeds.filterMap Entry.revealed? = [] := by
      obtain ⟨channel, -, rfl⟩ := Option.map_eq_some_iff.mp hnew
      cases hbegun
      rfl
    exact ⟨begun, hbegins, hbegins.performs_turn hclock hover, hshown, hfresh, hrevealed⟩
  obtain ⟨begun, hbegins, hperforms, hshown, -, -⟩ :=
    hplays ("é[b]" ++ "[pause=inf]" ++ "o[action=x]k") [("é", 0), ("o", 16), ("k", 27)]
      (by decide +kernel)
  obtain ⟨begun', hbegins', hperforms', hshown', hbefore, hrevealed⟩ :=
    hplays ("é[b]" ++ "o[action=x]k") [("é", 0), ("o", 5), ("k", 16)] (by decide +kernel)
  have hclosed : Text.IsClosed "é[b]" := by
    intro gap hgap
    have hlast : (Segment.cut "é[b]".toList).getLast? = some (.gap []) := by decide +kernel
    cases hlast.symm.trans hgap
    exact List.not_mem_nil
  have hlex : ⟨"pause", "inf", "[pause=inf]", 0, 11, false⟩ ∈ Tag.lex "[pause=inf]" := by
    decide +kernel
  have hinert : Tag.IsInert .own .consume ⟨"pause", "inf", "[pause=inf]", 0, 11, false⟩ :=
    .numberless (.inr rfl) (by decide)
  obtain ⟨-, hsame, -⟩ := inserts hclosed hlex rfl hinert hbegins hbegins'
  obtain ⟨-, told, told', htold, htold', -, -, hmoved⟩ := hsame _ _ hperforms hperforms'
  rw [htold', List.filterMap_append, hbefore, List.nil_append] at hrevealed
  rw [hrevealed] at hmoved
  exact ⟨_, begun, begun', _, _, hclosed, hlex, rfl, hinert, hbegins, hbegins', hperforms,
    hperforms', hshown, hshown', told, told', htold, htold', hrevealed, hmoved⟩

end TextReveal
