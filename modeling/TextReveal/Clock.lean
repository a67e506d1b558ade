import TextReveal.Handler
/-!
Clocks: what sessions wait on. A clock answers a wait when it is asked for, and again whenever the
waiting session is looked at.
-/
namespace TextReveal
open Number

inductive Answer where
  | elapsed
  | failed (reason : String)
  | pending
  deriving DecidableEq, Repr

class TimeBase (σ : Type) where
  request : σ → Single → Answer × σ
  /-- Asked again about a wait that was pending. -/
  again : σ → Single → Answer × σ
  /-- Whether a wait of this length, once it has ended, uses up the share of its turn. -/
  counts : σ → Single → Bool

inductive ClockKind where
  /-- Every wait needs a permit, whatever its length. -/
  | gate
  /-- A wait takes its time, which may be none, or not be a time at all. -/
  | timer
  deriving DecidableEq, Repr

structure Clock where
  kind : ClockKind := .gate
  /-- How many waits may still end. -/
  permits : Nat := 0
  /-- Whether all waits may end. -/
  isOpen : Bool := false
  /-- The number of the request that fails, counted from 1. -/
  failAt : Nat := 0
  requests : Nat := 0
  deriving DecidableEq, Repr

namespace Clock

/-- A timer counts whole nanoseconds, and a length of time has 64 bits of seconds. -/
def timerAnswer (seconds : Single) : Answer :=
  if seconds.isNonPositive then .elapsed
  else if !seconds.isFinite || twoTo 64 * Format.single.one ≤ seconds.numerator then
    .failed (seconds.write .plain
      ++ "s: cannot convert float seconds to Duration: value is either too big or NaN")
  else if roundDiv (seconds.numerator * tenTo 9) Format.single.one = 0 then .elapsed
  else .pending

/-- A wait that is not over ends only with a permit. -/
def wait (c : Clock) : Answer × Clock :=
  if c.isOpen then (.elapsed, c)
  else if 0 < c.permits then (.elapsed, { c with permits := c.permits - 1 })
  else (.pending, c)

def firstAnswer (c : Clock) (seconds : Single) : Answer :=
  match c.kind with
  | .gate => .pending
  | .timer => timerAnswer seconds

instance : TimeBase Clock where
  request c seconds :=
    let c := { c with requests := c.requests + 1 }
    if c.requests = c.failAt then (.failed "time base gone", c)
    else
      match c.firstAnswer seconds with
      | .pending => c.wait
      | answer => (answer, c)
  again c _ := c.wait
  counts c seconds := c.kind == .timer && !seconds.isNonPositive

end Clock

/-- A finished live effect, with what was asked of the clock and the signals before the last. -/
structure Waited (σ : Type) where
  reply : Reply
  delays : List Single := []
  clock : σ

/-- Runs a live effect for somebody with nothing else to do, however long the waits are. -/
def LiveEffect.run {σ : Type} [TimeBase σ] : LiveEffect → σ → Waited σ
  | .done reply, clock => { reply, clock }
  | .signal s next, clock =>
    let w := next.run clock
    { w with reply := { w.reply with signals := s :: w.reply.signals } }
  | .wait seconds resume, clock =>
    let (answer, clock) := TimeBase.request clock seconds
    let w := match answer with
      | .failed reason => (resume (.error reason)).run clock
      | .elapsed => (resume (.ok ())).run clock
      | .pending => (resume (.ok ())).run clock
    { w with delays := seconds :: w.delays }

end TextReveal
