import TextReveal.Terminal
/-!
The terminal program: `[--config FILE] [TEXT]`, with the text on standard input if it is not given.
-/
namespace TextReveal.Terminal

/-- Waits as long as a session has asked to. -/
def sleepFor (seconds : Number.Single) : IO Unit :=
  let milliseconds := seconds.numerator * 1000 / Number.Format.single.one
  IO.sleep (min milliseconds (Number.twoTo 32 - 1)).toUInt32

/-- Writes the part of the journal from `done` on. -/
def writeJournal (st : Stage Clock) (done : Nat) (o : Output) : IO Output := do
  let o := (st.journal.extract done st.journal.size).foldl Output.add
    { o with standard := "", error := "" }
  IO.eprint o.error
  IO.print o.standard
  (← IO.getStdout).flush
  return o

/-- Plays on until the session is over, and tells whether it completed. -/
partial def playOn (st : Stage Clock) (done : Nat) (o : Output) : IO Bool := do
  let st := st.settle
  let o ← writeJournal st done o
  match st.jobs with
  | { status := .asleep seconds _, .. } :: _ =>
    sleepFor seconds
    playOn (st.setClock fun c => { c with permits := 1 }) st.journal.size o
  | _ => return o.completed

def readFile? (path : String) : IO (Option String) := do
  try
    return some (← IO.FS.readFile path)
  catch _ => return none

def readInput? : IO (Option String) := do
  return String.fromUTF8? (← (← IO.getStdin).readBinToEnd)

def refuse (refusal : Refusal) : IO UInt32 := do
  IO.eprintln ("Error: " ++ refusal.message)
  return refusal.exitCode

def runText (options : Options) (text : String) : IO UInt32 := do
  match opening options text with
  | .error refusal => refuse refusal
  | .ok st =>
    for remark in remarks text do
      IO.eprintln remark
    let completed ← playOn st 0 {}
    IO.println ""
    IO.eprintln (closingRemark completed)
    return 0

def run (args : List String) : IO UInt32 := do
  match ← readOptions readFile? args {} with
  | .error refusal => refuse refusal
  | .ok options =>
    match options.text with
    | some text => runText options text
    | none =>
      match ← readInput? with
      | none => refuse .badInput
      | some text => runText options text

end TextReveal.Terminal

def main (args : List String) : IO UInt32 := TextReveal.Terminal.run args
