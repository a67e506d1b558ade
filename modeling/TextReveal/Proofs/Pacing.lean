import TextReveal.Proofs.Score
/-!
The pace of a text: which characters a session over the built-in handlers reveals, and for what it
waits, read off the text and its tags alone.
-/
namespace TextReveal
open Number

/-- The characters, each with the byte at which it starts. -/
def Text.placed (position : Nat) : List Char → List (Char × Nat)
  | [] => []
  | c :: cs => (c, position) :: placed (position + c.utf8Size) cs

namespace Tag

def covers (t : Tag) (position : Nat) : Bool :=
  t.start ≤ position && position < t.stop

end Tag

/-- The tempo at a byte, which the tags before it have set. -/
def Tempo.upTo (speed : Single) (tags : List Tag) (position : Nat) : Tempo :=
  (tags.filter (·.start < position)).foldl Tempo.after ⟨speed, []⟩

/-- Whether an entry is a character revealed, or a wait. -/
def Entry.isBeat : Entry → Bool
  | published (.revealed ..) | asked _ => true
  | _ => false

namespace Text

/-- A character, and the wait behind it if there is one at this speed. -/
def beat (speed : Single) (c : Char) (position : Nat) : List Entry :=
  .published (.revealed c.toString position) :: if speed.isPositive then [.asked speed] else []

/-- What comes at a character. In a tag that is taken as a whole nothing is revealed; a pause comes
where its tag starts. -/
def beats (takes : Tag → Bool) (speed : Single) (tags : List Tag) : Char × Nat → List Entry
  | (c, position) =>
    (if tags.any fun t => takes t && t.covers position then []
      else beat (Tempo.upTo speed tags position).speed c position) ++
    ((tags.filter (·.start = position)).filterMap Tag.pause?).map .asked

/-- What comes in the course of a text. -/
def pace (takes : Tag → Bool) (speed : Single) (text : String) : List Entry :=
  (placed 0 text.toList).flatMap (beats takes speed (Tag.lex text))

end Text

/-- The beats that acts write down. -/
def Act.beats (acts : List Act) : List Entry :=
  (acts.filterMap Act.note?).filter Entry.isBeat

theorem Act.beats_append (acts rest : List Act) :
    beats (acts ++ rest) = beats acts ++ beats rest := by
  rw [beats, List.filterMap_append, List.filter_append, beats, beats]

namespace Stage
variable {σ : Type}

def beats (st : Stage σ) : List Entry := st.journal.toList.filter Entry.isBeat

theorem filter_record (st : Stage σ) : st.record.filter Entry.isBeat = st.beats := by
  refine filter_record_of_isAct (fun entry hbeat => ?_) st
  cases entry with
  | heard => cases hbeat
  | completed => cases hbeat
  | _ => rfl

end Stage

namespace Text
variable {takes : Tag → Bool} {speed : Single} {tags before later : List Tag} {position : Nat}

theorem mem_placed {cs : List Char} {c : Char} {i : Nat} (h : (c, i) ∈ placed position cs) :
    position ≤ i ∧ i < position + width cs := by
  induction cs generalizing position with
  | nil => cases h
  | cons d cs ih =>
    have hd := d.utf8Size_pos
    rw [width]
    rw [placed, List.mem_cons, Prod.mk.injEq] at h
    rcases h with ⟨-, rfl⟩ | h
    · omega
    · have := ih h
      omega

theorem placed_append (cs ds : List Char) :
    placed position (cs ++ ds) = placed position cs ++ placed (position + width cs) ds := by
  induction cs generalizing position with
  | nil => rfl
  | cons c cs ih => rw [List.cons_append, placed, ih, placed, width, Nat.add_assoc]; rfl

/-- Tags that are yet to come, or leave the tempo as it is. -/
theorem foldl_after_of_idle
    (hlater : ∀ t ∈ later, position < t.start ∨ ∀ tempo : Tempo, tempo.after t = tempo)
    (tempo : Tempo) : (later.filter (·.start < position)).foldl Tempo.after tempo = tempo := by
  induction later with
  | nil => rfl
  | cons t later ih =>
    obtain ⟨hfirst, hrest⟩ := List.forall_mem_cons.mp hlater
    by_cases hstart : t.start < position
    · obtain hlt | hsame := hfirst
      · omega
      · rw [List.filter_cons_of_pos (by simpa using hstart), List.foldl_cons, hsame, ih hrest]
    · rw [List.filter_cons_of_neg (by simpa using hstart), ih hrest]

/-- Where no tag is taken, and those that are not are idle, a character is a beat of its own. -/
theorem beats_of_free (c : Char) (hbefore : ∀ t ∈ before, t.start < position ∧ t.stop ≤ position)
    (hlater : ∀ t ∈ later, position < t.start ∨
      takes t = false ∧ t.pause? = none ∧ ∀ tempo : Tempo, tempo.after t = tempo) :
    beats takes speed (before ++ later) (c, position) =
      beat (before.foldl Tempo.after ⟨speed, []⟩).speed c position := by
  -- The tags before have ended, those behind have not begun, and an idle one changes nothing.
  have huncovered : ¬(before ++ later).any fun t => takes t && t.covers position := by
    rw [List.any_eq_true]
    rintro ⟨t, ht, hcovers⟩
    simp only [Tag.covers, Bool.and_eq_true, decide_eq_true_eq] at hcovers
    rcases List.mem_append.mp ht with ht | ht
    · have := hbefore t ht
      omega
    · rcases hlater t ht with hlt | ⟨hfree, -⟩
      · omega
      · simp [hfree] at hcovers
  have hpauses : ((before ++ later).filter (·.start = position)).filterMap Tag.pause? = [] := by
    rw [List.filterMap_eq_nil_iff]
    intro t ht
    simp only [List.mem_filter, decide_eq_true_eq] at ht
    obtain ⟨ht, hstart⟩ := ht
    rcases List.mem_append.mp ht with ht | ht
    · have := hbefore t ht
      omega
    · rcases hlater t ht with hlt | ⟨-, hpause, -⟩
      · omega
      · exact hpause
  have htempo : Tempo.upTo speed (before ++ later) position =
      before.foldl Tempo.after ⟨speed, []⟩ := by
    have hall : before.filter (·.start < position) = before :=
      List.filter_eq_self.mpr fun t ht => decide_eq_true (hbefore t ht).1
    rw [Tempo.upTo, List.filter_append, hall, List.foldl_append]
    exact foldl_after_of_idle (fun t ht => (hlater t ht).imp_right fun hidle => hidle.2.2) _
  rw [beats, if_neg huncovered, hpauses, htempo]
  exact List.append_nil _

/-- Over a tag that is taken only its pause counts. -/
theorem beats_of_taken {t : Tag} (c : Char) (htakes : takes t = true)
    (hinside : t.start ≤ position ∧ position < t.stop)
    (hbefore : ∀ t' ∈ before, t'.start < t.start) (hlater : ∀ t' ∈ later, t.stop ≤ t'.start) :
    beats takes speed (before ++ t :: later) (c, position) =
      if t.start = position then t.pause?.toList.map .asked else [] := by
  -- No other tag starts at a place inside it, so no other pause comes there.
  have hcovered : (before ++ t :: later).any fun t => takes t && t.covers position := by
    rw [List.any_eq_true]
    exact ⟨t, by simp, by simpa [Tag.covers, htakes] using hinside⟩
  have hearlier : before.filter (·.start = position) = [] := by
    rw [List.filter_eq_nil_iff]
    intro t' ht'
    have := hbefore t' ht'
    simp
    omega
  have hafter : later.filter (·.start = position) = [] := by
    rw [List.filter_eq_nil_iff]
    intro t' ht'
    have := hlater t' ht'
    simp
    omega
  rw [beats, if_pos hcovered, List.nil_append, List.filter_append, hearlier, List.nil_append]
  by_cases hstart : t.start = position
  · rw [List.filter_cons_of_pos (by simpa using hstart), hafter, if_pos hstart]
    cases hpause : t.pause? with
    | none => simp [hpause]
    | some s => simp [hpause]
  · rw [List.filter_cons_of_neg (by simpa using hstart), hafter, if_neg hstart]
    rfl

theorem flatMap_beats_of_taken {t : Tag} {cs : List Char} (htakes : takes t = true)
    (hne : cs ≠ []) (hstop : t.stop = t.start + width cs)
    (hbefore : ∀ t' ∈ before, t'.start < t.start) (hlater : ∀ t' ∈ later, t.stop ≤ t'.start) :
    (placed t.start cs).flatMap (beats takes speed (before ++ t :: later)) =
      t.pause?.toList.map .asked := by
  obtain ⟨c, cs, rfl⟩ := List.exists_cons_of_ne_nil hne
  have hc := c.utf8Size_pos
  rw [width] at hstop
  have hnow : beats takes speed (before ++ t :: later) (c, t.start) =
      t.pause?.toList.map .asked := by
    rw [beats_of_taken c htakes (by omega) hbefore hlater, if_pos rfl]
  have hrest : (placed (t.start + c.utf8Size) cs).flatMap
      (beats takes speed (before ++ t :: later)) = [] := by
    rw [List.flatMap_eq_nil_iff]
    rintro ⟨d, i⟩ hd
    have hi := mem_placed hd
    rw [beats_of_taken d htakes (by omega) hbefore hlater, if_neg (by omega)]
  rw [placed, List.flatMap_cons, hnow, hrest, List.append_nil]

end Text

namespace Stance
variable {hub : HubRef} {policy : UnknownTags} {takes : Tag → Bool} {speed : Single}

def beats (s : Stance) : Piece → List Entry
  | .plain c => Text.beat s.tempo.speed c s.position
  | .tag t => t.pause?.toList.map .asked

theorem beats_turnActs (step : Nat) (speed : Single) :
    Act.beats (Session.turnActs step speed) = [] := by
  unfold Session.turnActs
  split <;> rfl

theorem beats_delayActs (speed : Single) :
    Act.beats (Session.delayActs speed) = if speed.isPositive then [.asked speed] else [] := by
  unfold Session.delayActs
  split <;> rfl

theorem beats_acts_tag (t : Tag) : Act.beats (t.acts hub) = t.pause?.toList.map .asked := by
  unfold Tag.acts Tag.pause?
  split
  · cases (Handler.seconds? t.parameter).filter (·.isPositive) <;> rfl
  · split <;> rfl

theorem beats_acts (s : Stance) (p : Piece) : Act.beats (s.acts hub policy p) = s.beats p := by
  cases p with
  | plain c =>
    rw [acts, Act.beats_append, beats_turnActs, List.nil_append]
    exact congrArg (Entry.published _ :: ·) (beats_delayActs s.tempo.speed)
  | tag t =>
    rw [acts, Act.beats_append, beats_turnActs, List.nil_append, Act.beats_append, beats_acts_tag]
    exact List.append_nil _

theorem beats_rounds_cons (s : Stance) (p : Piece) (units : List Piece) :
    Act.beats (s.rounds hub policy (p :: units)).flatten =
      s.beats p ++ Act.beats ((s.after policy p).rounds hub policy units).flatten := by
  rw [rounds, List.flatten_cons, Act.beats_append, beats_acts]

/-- Characters in a row, at one tempo. -/
theorem beats_rounds_plain {s : Stance} {cs : List Char} {units : List Piece} {tags : List Tag}
    (hfree : ∀ c i, s.position ≤ i → i < s.position + Text.width cs →
      Text.beats takes speed tags (c, i) = Text.beat s.tempo.speed c i) :
    Act.beats (s.rounds hub policy (cs.map .plain ++ units)).flatten =
      (Text.placed s.position cs).flatMap (Text.beats takes speed tags) ++
        Act.beats (((cs.map Piece.plain).foldl (Stance.after policy) s).rounds hub policy
          units).flatten := by
  induction cs generalizing s with
  | nil => rfl
  | cons c cs ih =>
    have hc := c.utf8Size_pos
    have hposition : (s.after policy (.plain c)).position = s.position + c.utf8Size := rfl
    have hrest := @ih (s.after policy (.plain c)) (by
      intro d i hle hlt
      rw [hposition] at hle hlt
      exact hfree d i (by omega) (by rw [Text.width]; omega))
    rw [List.map_cons, List.cons_append, beats_rounds_cons, hrest, Text.placed, List.flatMap_cons,
      hfree c s.position (Nat.le_refl _) (by rw [Text.width]; omega), List.append_assoc]
    rfl

theorem foldl_after_plain (policy : UnknownTags) (s : Stance) (cs : List Char) :
    ((cs.map Piece.plain).foldl (Stance.after policy) s).position = s.position + Text.width cs ∧
      ((cs.map Piece.plain).foldl (Stance.after policy) s).tempo = s.tempo := by
  induction cs generalizing s with
  | nil => exact ⟨rfl, rfl⟩
  | cons c cs ih =>
    obtain ⟨hposition, htempo⟩ := ih (s.after policy (.plain c))
    rw [List.map_cons, List.foldl_cons, hposition, htempo, Text.width, ← Nat.add_assoc]
    exact ⟨rfl, rfl⟩

/-- A tag that is taken as a whole. -/
theorem beats_rounds_taken {s : Stance} {t : Tag} {before later : List Tag}
    (hlies : t.Lies s.position) (htakes : takes t = true)
    (hbefore : ∀ u ∈ before, u.start < t.start) (hlater : ∀ u ∈ later, t.stop ≤ u.start)
    (units : List Piece) :
    Act.beats (s.rounds hub policy (.tag t :: units)).flatten =
      (Text.placed s.position t.fullText.toList).flatMap
          (Text.beats takes speed (before ++ t :: later)) ++
        Act.beats ((s.after policy (.tag t)).rounds hub policy units).flatten := by
  have hstop : t.stop = t.start + Text.width t.fullText.toList := by
    rw [hlies.start]
    exact hlies.stop
  rw [beats_rounds_cons, ← hlies.start,
    Text.flatMap_beats_of_taken htakes hlies.nonempty hstop hbefore hlater]
  rfl

/-- An idle tag is one more stretch of characters, all at the same tempo. -/
theorem beats_rounds_idle {s : Stance} {t : Tag} {before later : List Tag}
    (hlies : t.Lies s.position) (htakes : ¬takes t) (hpause : t.pause? = none)
    (hsame : ∀ tempo : Tempo, tempo.after t = tempo)
    (hbefore : ∀ u ∈ before, u.start < s.position ∧ u.stop ≤ s.position)
    (hlater : ∀ u ∈ later, t.stop ≤ u.start)
    (htempo : s.tempo = before.foldl Tempo.after ⟨speed, []⟩) (units : List Piece) :
    Act.beats (s.rounds hub policy (t.fullText.toList.map .plain ++ units)).flatten =
      (Text.placed s.position t.fullText.toList).flatMap
          (Text.beats takes speed (before ++ t :: later)) ++
        Act.beats (((t.fullText.toList.map Piece.plain).foldl (Stance.after policy) s).rounds hub
          policy units).flatten := by
  refine beats_rounds_plain fun c i hle hlt => ?_
  rw [← hlies.stop] at hlt
  rw [htempo]
  refine Text.beats_of_free c (fun u hu => ?_) fun u hu => ?_
  · have := hbefore u hu
    omega
  · rcases List.mem_cons.mp hu with rfl | hu
    · exact .inr ⟨by simpa using htakes, hpause, hsame⟩
    · exact .inl (hlt.trans_le (hlater u hu))

/-- The beats of the loop over placed pieces are those of their characters, in the light of the tags
before them. -/
theorem beats_rounds {pieces : List Piece} {before : List Tag} {s : Stance} {position : Nat}
    (hplaced : Piece.Placed position pieces) (hposition : s.position = position)
    (hbefore : ∀ t ∈ before, t.start < position ∧ t.stop ≤ position)
    (htempo : s.tempo = before.foldl Tempo.after ⟨speed, []⟩)
    (hidle : ∀ t : Tag, Name.normalize t.name = t.name → ¬takes t →
      t.pause? = none ∧ ∀ tempo : Tempo, tempo.after t = tempo) :
    Act.beats (s.rounds hub policy (pieces.flatMap (Piece.units takes))).flatten =
      (Text.placed position (pieces.flatMap Piece.chars)).flatMap
        (Text.beats takes speed (before ++ pieces.filterMap Piece.tag?)) := by
  induction hplaced using Piece.Placed.along generalizing before s with
  | nil => rfl
  | @plain position c rest _ hstarts ih =>
    subst hposition
    have hnow : Text.beats takes speed (before ++ rest.filterMap Piece.tag?) (c, s.position) =
        s.beats (.plain c) := by
      rw [beats, htempo]
      exact Text.beats_of_free c hbefore fun t ht => .inl (hstarts t ht)
    have hbehind : ∀ t ∈ before, t.start < s.position + c.utf8Size ∧
        t.stop ≤ s.position + c.utf8Size := by
      intro t ht
      have := hbefore t ht
      omega
    have hlater := @ih before (s.after policy (.plain c)) rfl hbehind htempo
    show Act.beats (s.rounds hub policy (.plain c :: rest.flatMap _)).flatten = _
    rw [beats_rounds_cons, hlater, ← hnow]
    rfl
  | @tag position t rest hlies _ hstarts ih =>
    subst hposition
    have hbehind : ∀ u ∈ before ++ [t], u.start < t.stop ∧ u.stop ≤ t.stop := by
      intro u hu
      have hlt := hlies.start_lt_stop
      rcases List.mem_append.mp hu with hu | hu
      · have hstart := hlies.start
        have := hbefore u hu
        omega
      · obtain rfl := List.mem_singleton.mp hu
        exact ⟨hlt, Nat.le_refl _⟩
    have htags : before ++ (Piece.tag t :: rest).filterMap Piece.tag? =
        before ++ t :: rest.filterMap Piece.tag? := rfl
    rw [List.flatMap_cons, List.flatMap_cons, Text.placed_append, List.flatMap_append,
      Piece.chars, Piece.units, ← hlies.stop, htags]
    by_cases htakes : takes t
    · have hearlier : ∀ u ∈ before, u.start < t.start := by
        rw [hlies.start]
        exact fun u hu => (hbefore u hu).1
      have hlater := @ih (before ++ [t]) (s.after policy (.tag t)) hlies.stop.symm hbehind
        (by simp [Stance.after, htempo])
      rw [List.append_assoc, List.singleton_append] at hlater
      rw [if_pos htakes, List.singleton_append,
        beats_rounds_taken hlies htakes hearlier hstarts, hlater]
    · obtain ⟨hpause, hsame⟩ := hidle t hlies.normal htakes
      obtain ⟨hafter, hkept⟩ := foldl_after_plain policy s t.fullText.toList
      have hlater := ih (hafter.trans hlies.stop.symm) hbehind (by simp [hkept, htempo, hsame])
      rw [List.append_assoc, List.singleton_append] at hlater
      rw [if_neg htakes,
        beats_rounds_idle hlies htakes hpause hsame hbefore hstarts htempo, hlater]

end Stance

/-- The beats of a session, from its start to its end. -/
theorem Session.beats_start (id : Nat) (hub : HubRef) (policy : UnknownTags) (text : String)
    (speed : Single) :
    Act.beats ((start id policy text (Tag.lex text) speed).acts (.withBuiltins hub)) =
      Text.pace ((Registry.withBuiltins hub).takes policy) speed text := by
  have hidle : ∀ t : Tag, Name.normalize t.name = t.name →
      ¬(Registry.withBuiltins hub).takes policy t →
        t.pause? = none ∧ ∀ tempo : Tempo, tempo.after t = tempo := by
    intro t hplain htakes
    obtain ⟨hnobody, -⟩ := Registry.not_takes_iff.mp htakes
    obtain ⟨hidle, -⟩ := Tag.idle_of_get?_eq_none hplain hnobody policy
    exact ⟨hidle.pause?, hidle.tempo⟩
  have hrounds : Act.beats (Stance.rounds hub policy ⟨0, 0, ⟨speed, []⟩, ""⟩ _).flatten = _ :=
    Stance.beats_rounds (Piece.placed_cut text) rfl (List.forall_mem_nil _) rfl hidle
  rw [acts_start, Act.beats_append, hrounds, Piece.chars_cut, Piece.tags_cut, List.nil_append]
  exact List.append_nil _

theorem Session.getLast?_acts_start (id : Nat) (hub : HubRef) (policy : UnknownTags) (text : String)
    (speed : Single) :
    ((start id policy text (Tag.lex text) speed).acts (.withBuiltins hub)).getLast? =
      some (.finished (some .completed)) := by
  rw [acts_start, List.getLast?_append]
  rfl

namespace Stage
variable {σ : Type} {acts : List Act} {st : Stage σ} {after : Status × Stage σ}

theorem Does.beats (h : Does acts st after) :
    after.2.beats ++ Act.beats (after.1.acts st.registry) = st.beats ++ Act.beats acts := by
  obtain ⟨done, rfl, hrecord⟩ := h
  rw [← filter_record, hrecord, List.filter_append, filter_record, Act.beats_append,
    List.append_assoc]
  rfl

/-- It ends as its last act says. -/
theorem Does.ended {outcome : Outcome} (h : Does acts st after)
    (hlast : acts.getLast? = some (.finished (some outcome))) (hover : after.1.isOver) :
    after.1 = .ended outcome := by
  obtain ⟨done, rfl, -⟩ := h
  cases hstatus : after.1 with
  | ready => rw [hstatus] at hover; cases hover
  | asleep => rw [hstatus] at hover; cases hover
  | crashed => simp [hstatus, Status.acts] at hlast
  | ended outcome' => simpa [hstatus, Status.acts] using hlast

theorem beats_opening {hub : HubRef} (st : Stage σ) (h : st.registry = .withBuiltins hub)
    (text : String) (speed : Option Single) :
    Act.beats ((st.opening text speed).acts st.registry) =
        Text.pace (st.registry.takes st.player.config.unknownTags)
          (speed.getD st.player.config.defaultSpeed) text ∧
      ((st.opening text speed).acts st.registry).getLast? = some (.finished (some .completed)) := by
  rw [h]
  exact ⟨Session.beats_start .., Session.getLast?_acts_start ..⟩

/-- A session that nothing disturbs goes through its acts in so many turns, and ends with the
last. -/
theorem Undisturbed.goes [TimeBase σ] {id n : Nat} {status : Status} {outcome : Outcome}
    {start : Stage σ} (hjobs : start.jobs = [⟨id, status, false⟩])
    (hlast : (status.acts start.registry).getLast? = some (.finished (some outcome)))
    (h : Undisturbed start n st) :
    n ≤ status.span start.registry ∧ ∃ status', st.jobs = [⟨id, status', false⟩] ∧
      Does (status.acts start.registry) start (status', st) ∧
      (status'.isOver → status' = .ended outcome) := by
  obtain ⟨status', hcourse⟩ := h.onCourse hjobs
  obtain ⟨status'', hjobs', -, hdoes⟩ := h.does hjobs
  exact ⟨Nat.le_of_add_left_le hcourse.span, status'', hjobs', hdoes, hdoes.ended hlast⟩

end Stage

/-- A session over the built-in handlers which its owner does not cancel and no clock fails keeps
the pace of its text: every character outside the tags that are handled or swallowed is revealed
once, with its offset, and waited for if the tags before it have left a positive speed; and a pause
is waited for where its tag starts. When the session is over, it has completed, and nothing is left
out. -/
theorem Stage.History.keeps_pace {σ : Type} [TimeBase σ] {w : Surroundings σ} {registry : Registry}
    {clock : σ} {config : Config} {hub hub' : HubRef} {start st begun : Stage σ}
    {calls : List Command} {text : String} {speed : Option Single} {callback : Bool} {id : Nat}
    (hnew : Stage.new? registry clock config hub = some start) (h : History w start calls st)
    (hs : Request.Steps w (.start text speed callback, st) (.done id, begun))
    (hregistry : begun.registry = .withBuiltins hub') :
    ∃ bound, ∀ n after, begun.Undisturbed n after → n ≤ bound ∧
      ∃ status rest, after.jobs = [⟨id, status, false⟩] ∧
        after.beats ++ rest = begun.beats ++
          Text.pace (begun.registry.takes begun.player.config.unknownTags)
            (speed.getD begun.player.config.defaultSpeed) text ∧
        (status.isOver → status = .ended .completed ∧ rest = []) := by
  obtain ⟨before, hjobs, rfl, rfl⟩ := h.launched hnew hs
  obtain ⟨hpace, hlast⟩ := beats_opening before hregistry text speed
  have halone := jobs_launch before text speed callback
  rw [hjobs, List.nil_append] at halone
  refine ⟨(before.opening text speed).span before.registry, fun n after hrun => ?_⟩
  obtain ⟨hspan, status, hjobs', hdoes, hends⟩ := hrun.goes halone hlast
  refine ⟨hspan, status, Act.beats (status.acts before.registry), hjobs',
    hdoes.beats.trans (congrArg (_ ++ ·) hpace), fun hover => ⟨hends hover, ?_⟩⟩
  rw [hends hover]
  rfl

/-- A text that loses its delays halfway, but not its pause. -/
theorem Stage.History.keeps_pace_of_turn :
    ∃ start begun : Stage Clock,
      Stage.new? (.withBuiltins .own) { isOpen := true } {} .own = some start ∧
      Request.Steps ⟨fun _ => True, fun _ => True⟩
        (.start "a[speed=0]b[pause=1]c" none true, start) (.done 1, begun) ∧
      begun.registry = .withBuiltins .own ∧ begun.Undisturbed 1 (begun.turn true 0) ∧
      (begun.turn true 0).beats =
        [.published (.revealed "a" 0), .asked begun.player.config.defaultSpeed,
          .published (.revealed "b" 10), .asked ⟨false, 0x3F800000⟩,
          .published (.revealed "c" 20)] ∧
      (begun.turn true 0).beats = begun.beats ++
        Text.pace (begun.registry.takes begun.player.config.unknownTags)
          begun.player.config.defaultSpeed "a[speed=0]b[pause=1]c" := by
  have hrun : ((Stage.new? (.withBuiltins .own) ({ isOpen := true } : Clock) {} .own).bind
      fun start => ((Request.start "a[speed=0]b[pause=1]c" none true).run? start).map fun begun =>
        ((begun.1, begun.2.turnFails true 0, begun.2.turnGoesOn 0),
          (begun.2.turn true 0).jobs.map (·.status.isOver),
          begun.2.player.config.defaultSpeed, (begun.2.turn true 0).beats)) =
      some ((1, false, true), [true], ⟨false, 0x3D4CCCCD⟩,
        [.published (.revealed "a" 0), .asked ⟨false, 0x3D4CCCCD⟩,
          .published (.revealed "b" 10), .asked ⟨false, 0x3F800000⟩,
          .published (.revealed "c" 20)]) := by
    decide +kernel
  simp only [Option.bind_eq_some_iff, Option.map_eq_some_iff, Prod.mk.injEq] at hrun
  obtain ⟨start, hnew, ⟨id, begun⟩, hbegun, ⟨rfl, hclock, hgoes⟩, hover, hspeed, hbeats⟩ := hrun
  have hsteps := Request.steps_of_run? ⟨fun _ => True, fun _ => True⟩ hbegun
  have hregistry : begun.registry = .withBuiltins .own := registry_of_start hnew hbegun
  have hundisturbed : begun.Undisturbed 1 (begun.turn true 0) := by
    have hturn := Undisturbed.begin.turn true 0 hclock
    rwa [hgoes] at hturn
  obtain ⟨bound, hbound⟩ := History.keeps_pace hnew .begin hsteps hregistry
  obtain ⟨-, status, rest, hjobs, hpace, hends⟩ := hbound 1 _ hundisturbed
  have hdone : status.isOver := by simpa [hjobs] using hover
  obtain ⟨-, rfl⟩ := hends hdone
  rw [List.append_nil] at hpace
  exact ⟨start, begun, hnew, hsteps, hregistry, hundisturbed, hspeed ▸ hbeats, hpace⟩

end TextReveal
