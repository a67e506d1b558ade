import TextReveal.Player.Request
/-!
Those who hold the clock of a stage, and waiting for a session while time passes.
-/
namespace TextReveal.Stage

def setClock (st : Stage Clock) (f : Clock → Clock) : Stage Clock := { st with clock := f st.clock }

/-- What is done to a gate leaves a timer alone. -/
def setGate (st : Stage Clock) (f : Clock → Clock) : Stage Clock :=
  if st.clock.kind = .gate then st.setClock f else st

/-- Lets `n` more waits end. -/
def release (st : Stage Clock) (n : Nat) : Stage Clock :=
  (st.setGate fun c => { c with permits := c.permits + n }).settle

/-- Lets all waits end from now on. -/
def openGate (st : Stage Clock) : Stage Clock :=
  (st.setGate fun c => { c with isOpen := true }).settle

/-- Lets no wait end from now on. -/
def shutGate (st : Stage Clock) : Stage Clock :=
  st.setGate fun c => { c with isOpen := false, permits := 0 }

/-- Waits for the active session, as far as the clock goes by itself: a timer does, a gate does not.
Nothing if the session is still waiting. -/
def join (st : Stage Clock) : Option (Option Outcome) × Stage Clock :=
  let passes := st.clock.kind = .timer
  let st := if passes then st else st.settle
  let wasOpen := st.clock.isOpen
  let st := st.setClock fun c => { c with isOpen := c.isOpen || passes }
  match Request.join.run? st with
  | some (outcome, st) => (some outcome, st.setClock fun c => { c with isOpen := wasOpen })
  | none => (none, st.setClock fun c => { c with isOpen := wasOpen })

end TextReveal.Stage
