import TextReveal.Proofs.Interleaving
/-!
Other numbers for sessions. A session says its number in what it publishes and calls back, and
nowhere else does it matter.
-/
namespace TextReveal

namespace Event

def renumber (f : Nat → Nat) : Event → Event
  | started session => started (f session)
  | revealed text offset => revealed text offset
  | completed session => completed (f session)
  | skipped session => skipped (f session)
  | cancelled session => cancelled (f session)

end Event

namespace Entry

def renumber (f : Nat → Nat) : Entry → Entry
  | published event => published (event.renumber f)
  | completed session => completed (f session)
  | entry => entry

end Entry

namespace Effect

def renumber (f : Nat → Nat) : Effect → Effect
  | publish event => publish (event.renumber f)
  | complete session => complete (f session)
  | effect => effect

end Effect

namespace Session

def renumber (f : Nat → Nat) : Session → Session
  | .ended outcome => .ended outcome
  | .crashed => .crashed
  | .perform effect next => .perform (effect.renumber f) (next.renumber f)
  | .resolve name next => .resolve name fun h => (next h).renumber f
  | .check next => .check fun cancelled => (next cancelled).renumber f
  | .yield next => .yield (next.renumber f)
  | .breathe next => .breathe (next.renumber f)
  | .sleep seconds next => .sleep seconds fun wake => (next wake).renumber f

end Session

def Status.renumber (f : Nat → Nat) : Status → Status
  | .ready s => .ready (s.renumber f)
  | .asleep seconds next => .asleep seconds fun wake => (next wake).renumber f
  | .ended outcome => .ended outcome
  | .crashed => .crashed

def Job.renumber (f : Nat → Nat) (j : Job) : Job :=
  { j with id := f j.id, status := j.status.renumber f }

def Ticket.renumber (f : Nat → Nat) (t : Ticket) : Ticket := { t with id := f t.id }

/-- The answer to a call, which may be a number. -/
def Command.renumber (f : Nat → Nat) : (c : Command) → c.Answer → c.Answer
  | start .., id => f id
  | skip, skipped => skipped
  | stop, stopped => stopped
  | setInstant _, answer => answer
  | join, outcome => outcome

theorem Status.outcome?_renumber (f : Nat → Nat) (status : Status) :
    (status.renumber f).outcome? = status.outcome? := by
  cases status <;> rfl

namespace Session
variable {f : Nat → Nat} {id : Nat}

theorem renumber_complete : (complete id).renumber f = complete (f id) := rfl

theorem renumber_abandon : (abandon id).renumber f = abandon (f id) := by
  refine congrArg check (funext fun cancelled => ?_)
  cases cancelled <;> rfl

theorem renumber_guarded {next : Unit → Session} :
    (guarded id next).renumber f = guarded (f id) fun u => (next u).renumber f := by
  refine congrArg check (funext fun cancelled => ?_)
  cases cancelled with
  | true => exact renumber_abandon
  | false => rfl

theorem renumber_poised {next : Unit → Session} :
    (poised id next).renumber f = poised (f id) fun u => (next u).renumber f :=
  congrArg breathe renumber_guarded

theorem renumber_delay {ctx : Context} {next : Unit → Session} :
    (delay id ctx next).renumber f = delay (f id) ctx fun u => (next u).renumber f := by
  unfold delay
  split
  · refine renumber_poised.trans (congrArg (poised (f id)) (funext fun u => ?_))
    refine congrArg (sleep ctx.speed) (funext fun wake => ?_)
    cases wake with
    | elapsed => exact renumber_guarded
    | failed => exact renumber_abandon
    | cancelled => exact renumber_abandon
  · rfl

theorem renumber_turn {step : Nat} {ctx : Context} {next : Unit → Session} :
    (turn id step ctx next).renumber f = turn (f id) step ctx fun u => (next u).renumber f := by
  refine renumber_guarded.trans (congrArg (guarded (f id)) (funext fun u => ?_))
  split
  · exact congrArg yield renumber_guarded
  · rfl

theorem renumber_signals {list : List Signal} {next : Session} :
    (signals list next).renumber f = signals list (next.renumber f) := by
  induction list with
  | nil => rfl
  | cons s list ih => exact congrArg (perform (.signal s)) ih

theorem renumber_judge {reply : Reply} {next : Context → Response → Session} :
    (judge id reply next).renumber f =
      judge (f id) reply fun ctx response => (next ctx response).renumber f := by
  unfold judge
  split
  · rfl
  · exact renumber_abandon
  · rfl
  · rfl

theorem renumber_ofReply {reply : Reply} {next : Context → Response → Session} :
    (ofReply id reply next).renumber f =
      ofReply (f id) reply fun ctx response => (next ctx response).renumber f :=
  renumber_signals.trans (congrArg (signals reply.signals) renumber_judge)

theorem renumber_ofLive {effect : LiveEffect} {next : Context → Response → Session} :
    (ofLive id next effect).renumber f =
      ofLive (f id) (fun ctx response => (next ctx response).renumber f) effect := by
  induction effect with
  | done reply =>
    refine renumber_signals.trans (congrArg (signals reply.signals) ?_)
    split
    · rfl
    · rw [renumber_guarded, renumber_judge]
  | signal s effect ih => exact congrArg (perform (.signal s)) ih
  | wait seconds resume ih =>
    rw [ofLive, ofLive]
    refine congrArg (sleep seconds) (funext fun wake => ?_)
    cases wake with
    | elapsed => exact ih _
    | failed => exact ih _
    | cancelled => exact renumber_abandon

theorem renumber_runTag {h : Handler} {t : Tag} {ctx : Context}
    {next : Context → Response → Session} :
    (runTag id h t ctx next).renumber f =
      runTag (f id) h t ctx fun ctx response => (next ctx response).renumber f := by
  unfold runTag
  split
  · exact renumber_ofReply
  · split
    · rw [renumber_poised, renumber_ofLive]
    · exact renumber_ofReply

theorem renumber_announce {text : Option String} {offset : Nat} {next : Session} :
    (announce text offset next).renumber f = announce text offset (next.renumber f) := by
  cases text <;> rfl

theorem renumber_showResponse {position : Nat} {response : Response} {ctx : Context}
    {next : Context → Session} :
    (showResponse id position response ctx next).renumber f =
      showResponse (f id) position response ctx fun ctx => (next ctx).renumber f := by
  refine renumber_announce.trans (congrArg (announce _ position) (congrArg (perform _) ?_))
  split
  · exact renumber_delay
  · rfl

theorem renumber_showChar {position : Nat} {c : Char} {ctx : Context} {next : Context → Session} :
    (showChar id position c ctx next).renumber f =
      showChar (f id) position c ctx fun ctx => (next ctx).renumber f := by
  unfold showChar
  dsimp only
  rw [renumber_announce]
  exact congrArg (announce _ position) (congrArg (perform _) renumber_delay)

theorem renumber_reveal (policy : UnknownTags) (chars : List Char)
    (position resume steps : Nat) (tags : List Tag) (ctx : Context) :
    (reveal id policy chars position resume steps tags ctx).renumber f =
      reveal (f id) policy chars position resume steps tags ctx := by
  induction chars generalizing position resume steps tags ctx with
  | nil => exact renumber_complete
  | cons c rest ih =>
    rw [reveal, reveal]
    split
    · exact ih ..
    -- Two branches show characters: where there is no tag, and where nobody takes it.
    · have hchar (next resume steps : Nat) (tags : List Tag) (ctx : Context) :
          (showChar id position c ctx (reveal id policy rest next resume steps tags)).renumber f =
            showChar (f id) position c ctx (reveal (f id) policy rest next resume steps tags) := by
        rw [renumber_showChar]
        simp only [ih]
      refine renumber_turn.trans (congrArg (turn (f id) (steps + 1) ctx) (funext fun u => ?_))
      dsimp only
      split
      · exact hchar ..
      · refine congrArg (resolve _) (funext fun found => ?_)
        cases found with
        | some h => simp only [renumber_runTag, renumber_showResponse, ih]
        | none =>
          cases policy with
          | consume => exact congrArg (perform _) (ih ..)
          | literal => exact hchar ..

/-- The number of a session changes nothing about it but the number. -/
theorem renumber_start (policy : UnknownTags) (source : String) (tags : List Tag)
    (speed : Number.Single) : (start id policy source tags speed).renumber f =
      start (f id) policy source tags speed :=
  renumber_reveal ..

end Session

namespace Request
variable {α : Type}

/-- Requests that are the same but for the numbers of sessions, with answers `g` to each other. -/
inductive Matches (f : Nat → Nat) (g : α → α) : Request α → Request α → Prop
  | done (result : α) : Matches f g (.done result) (.done (g result))
  | readState {next next' : State → Request α}
    (h : ∀ state, Matches f g (next state) (next' state)) :
    Matches f g (.readState next) (.readState next')
  | take {next next' : Option Ticket → Request α}
    (h : ∀ active, Matches f g (next active) (next' (active.map (Ticket.renumber f)))) :
    Matches f g (.take next) (.take next')
  | cancel {next next' : Option Ticket → Request α}
    (h : ∀ active, Matches f g (next active) (next' (active.map (Ticket.renumber f)))) :
    Matches f g (.cancel next) (.cancel next')
  | await (session : Ticket) {next next' : Outcome → Request α}
    (h : ∀ outcome, Matches f g (next outcome) (next' outcome)) :
    Matches f g (.await session next) (.await (session.renumber f) next')
  | render (source : String) (tags : List Tag) (speed : Option Number.Single)
    {next next' : String → Request α} (h : ∀ text, Matches f g (next text) (next' text)) :
    Matches f g (.render source tags speed next) (.render source tags speed next')
  | launch (text : String) (speed : Option Number.Single) (callback : Bool)
    {next next' : Nat → Request α} (h : ∀ id, Matches f g (next id) (next' (f id))) :
    Matches f g (.launch text speed callback next) (.launch text speed callback next')
  | perform (effect : Effect) {next next' : Request α} (h : Matches f g next next') :
    Matches f g (.perform effect next) (.perform (effect.renumber f) next')

variable {f : Nat → Nat} {g : α → α}

theorem Matches.performAll (effects : List Effect) {next next' : Request α}
    (h : Matches f g next next') :
    Matches f g (performAll effects next) (performAll (effects.map (Effect.renumber f)) next') := by
  induction effects with
  | nil => exact h
  | cons e effects ih => exact .perform e ih

theorem matches_halt {next next' : Bool → Request α}
    (h : ∀ stopped, Matches f g (next stopped) (next' stopped)) :
    Matches f g (halt next) (halt next') := by
  refine .readState fun before => .cancel fun active => ?_
  cases active with
  | none => exact h false
  | some session =>
    refine .await session fun outcome => ?_
    split
    · exact .performAll [.setState .cancelled, .publish (.cancelled session.id)] (h true)
    · exact h false

theorem matches_skip : Matches f id Request.skip Request.skip := by
  refine .readState fun before => ?_
  split
  · exact .done false
  · refine .cancel fun active => ?_
    cases active with
    | none => exact .done false
    | some session =>
      refine .await session fun outcome => ?_
      cases outcome with
      | completed => exact .done false
      | cancelled =>
        exact .render session.source session.tags session.speed fun text =>
          .performAll [.frame text, .setState .completed,
            .publish (.skipped session.id), .publish (.completed session.id),
            .complete session.id] (.done true)

theorem matches_join : Matches f id Request.join Request.join := by
  refine .take fun active => ?_
  cases active with
  | none => exact .done none
  | some session => exact .await session fun outcome => .done (some outcome)

/-- No call depends on the numbers of sessions, but for the number that it may answer. -/
theorem matches_request (c : Command) : Matches f (c.renumber f) c.request c.request := by
  cases c with
  | start text speed callback =>
    exact matches_halt fun _ => .launch text speed callback fun id => .done id
  | skip => exact matches_skip
  | stop => exact matches_halt fun stopped => .done stopped
  | setInstant text =>
    exact matches_halt fun _ => .render text (Tag.lex text) none fun text =>
      .performAll [.frame text, .setState .completed] (.done ())
  | join => exact matches_join

end Request
end TextReveal
