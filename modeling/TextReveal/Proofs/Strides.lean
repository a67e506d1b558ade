import TextReveal.Proofs.Pacing
/-!
The strides of a loop over a text: what it does at one position after the other. Live sessions and
instant passes make their strides alike, each with its own answers of the handlers.
-/
namespace TextReveal

/-- What is done at a position of a text. -/
inductive Dealing where
  /-- A tag goes to its handler, which replies. -/
  | handled (t : Tag) (h : Handler) (reply : Reply)
  /-- A tag that nobody handles is left out. -/
  | swallowed (t : Tag)
  | shown (c : Char)

structure Stride where
  position : Nat
  /-- The context that the stride finds, moved to its position. -/
  context : Context
  dealing : Dealing

namespace Stride

/-- The context that the stride leaves. -/
def after (s : Stride) : Context :=
  match s.dealing with
  | .handled _ _ reply => reply.context.append reply.response.shown
  | .swallowed _ => s.context
  | .shown c => s.context.append c.toString

/-- The first byte behind the stride that is not dealt with. -/
def landing (s : Stride) : Nat :=
  match s.dealing with
  | .handled t _ reply => t.landing reply.response
  | .swallowed t => t.stop
  | .shown c => s.position + c.utf8Size

/-- The tag that the stride takes as a whole. -/
def tag? (s : Stride) : Option Tag :=
  match s.dealing with
  | .handled t _ _ | .swallowed t => some t
  | .shown _ => none

def signals (s : Stride) : List Signal :=
  match s.dealing with
  | .handled _ _ reply => reply.signals
  | .swallowed _ | .shown _ => []

/-- The context behind strides that begin in this one. -/
def last (ctx : Context) (strides : List Stride) : Context :=
  strides.foldl (fun _ s => s.after) ctx

def rendering (ctx : Context) (strides : List Stride) : Rendering :=
  ⟨last ctx strides, strides.flatMap signals⟩

end Stride

section
variable (answer : Handler → Tag → Context → Reply) (r : Registry) (policy : UnknownTags)

/-- What is to be done at a character, where perhaps a tag starts. -/
def Dealing.at (c : Char) (ctx : Context) : Option Tag → Dealing
  | none => .shown c
  | some t =>
    match r.get? t.name with
    | some h => .handled t h (answer h t ctx)
    | none =>
      match policy with
      | .consume => .swallowed t
      | .literal => .shown c

/-- The strides from `position` on. Characters before `resume` are dealt with. -/
def strides : List Char → Nat → Nat → List Tag → Context → List Stride
  | [], _, _, _, _ => []
  | c :: rest, position, resume, tags, ctx =>
    let next := position + c.utf8Size
    if position < resume then strides rest next resume tags ctx
    else
      let ctx := { ctx with cursor := position }
      let (here, later) := Tag.reach position tags
      let s : Stride := ⟨position, ctx, Dealing.at answer r policy c ctx here⟩
      s :: strides rest next s.landing later s.after

end

/-- An instant pass makes its strides, and nothing else. -/
theorem Instant.walk_eq_strides (r : Registry) (policy : UnknownTags) (chars : List Char)
    (position resume : Nat) (tags : List Tag) (ctx : Context) :
    walk r policy chars position resume tags ctx =
      Stride.rendering ctx (strides respond r policy chars position resume tags ctx) := by
  induction chars generalizing position resume tags ctx with
  | nil => rfl
  | cons c rest ih =>
    rw [walk, strides]
    split
    · exact ih ..
    · cases Tag.reach position tags with
      | mk here later =>
        cases here with
        | none => exact ih ..
        | some t =>
          dsimp only [Dealing.at]
          cases r.get? t.name with
          | some h =>
            dsimp only
            rw [ih]
            rfl
          | none => cases policy <;> exact ih ..

namespace Stride
open Session

/-- What a session does in a stride, as the step of its loop that has this number. -/
def acts (step : Nat) (s : Stride) : List Act :=
  turnActs step s.context.speed ++ match s.dealing with
    | .handled t h reply =>
      tagActs h t s.context ++ responseActs s.position reply.response s.after
    | .swallowed _ => [.did (.frame s.context.buffer)]
    | .shown c =>
      .did (.publish (.revealed c.toString s.position)) ::
        .did (.frame s.after.buffer) :: delayActs s.context.speed

/-- What it does in strides behind `steps` others. -/
def course (steps : Nat) : List Stride → List Act
  | [] => []
  | s :: rest => s.acts (steps + 1) ++ course (steps + 1) rest

end Stride

/-- Whether no handler breaks a session off, so long as its waits succeed. -/
def Registry.GoesOn (r : Registry) : Prop :=
  ∀ name h, r.get? name = some h → ∀ t ctx, (Session.liveReply h t ctx).verdict.breaksOff = false

namespace Session
variable {id : Nat} {r : Registry} {policy : UnknownTags}

/-- A session that nothing disturbs makes its strides, and completes. -/
theorem acts_reveal_strides (hgoes : r.GoesOn) (chars : List Char)
    (position resume steps : Nat) (tags : List Tag) (ctx : Context) :
    (reveal id policy chars position resume steps tags ctx).acts r =
      Stride.course steps (strides liveReply r policy chars position resume tags ctx) ++
        (complete id).acts r := by
  -- Each branch of the loop that deals with a character is one stride with its acts.
  induction chars generalizing position resume steps tags ctx with
  | nil => rfl
  | cons c rest ih =>
    rw [reveal, strides]
    split
    · exact ih ..
    · rw [acts_turn]
      cases Tag.reach position tags with
      | mk here later =>
        cases here with
        | none =>
          dsimp only [Dealing.at]
          rw [acts_showChar, ih]
          simp [Stride.course, Stride.acts, Stride.after, Stride.landing]
        | some t =>
          dsimp only [Dealing.at, acts]
          cases hget : r.get? t.name with
          | some h =>
            have hreply := hgoes _ h hget t { ctx with cursor := position }
            dsimp only
            rw [acts_runTag, judge_of_goesOn hreply, acts_showResponse, ih]
            simp [Stride.course, Stride.acts, Stride.after, Stride.landing]
          | none =>
            cases policy with
            | consume =>
              dsimp only [frame, acts]
              rw [ih]
              simp [Stride.course, Stride.acts, Stride.after, Stride.landing]
            | literal =>
              dsimp only
              rw [acts_showChar, ih]
              simp [Stride.course, Stride.acts, Stride.after, Stride.landing]

end Session
end TextReveal
