import TextReveal.Config.Reader
import TextReveal.Player.Audience
import TextReveal.Player.Timing
import TextReveal.Validation
/-!
The terminal program: plays one text on standard output, with remarks on standard error.
-/
namespace TextReveal.Terminal

/-- Whether `text` starts with `shown`, and what follows it. -/
def rest? : List Char → List Char → Option (List Char)
  | [], text => some text
  | _ :: _, [] => none
  | s :: shown, c :: text => if s = c then rest? shown text else none

/-- What is written to get from one frame to the next: the new end, or all on a new line. -/
def delta (shown text : String) : String :=
  match rest? shown.toList text.toList with
  | some rest => String.ofList rest
  | none => "\n" ++ text

inductive Refusal where
  | noConfigPath
  | unreadable (path : String)
  | badConfig (fault : Json.Fault)
  | badInput
  /-- No channel is as large as configured. -/
  | noChannel
  deriving DecidableEq, Repr

def Refusal.message : Refusal → String
  | noConfigPath => "--config needs a path"
  | unreadable path => "reading " ++ path
  | badConfig fault => "config error: " ++ fault.message
  | badInput => "stdin read failed"
  | noChannel => "event capacity too large"

def Refusal.exitCode : Refusal → UInt32
  | noChannel => 101
  | _ => 1

structure Options where
  config : Config := {}
  /-- The last argument that belongs to no option. -/
  text : Option String := none
  deriving DecidableEq, Repr

/-- Reads the arguments from left to right, and every file when it is named. -/
def readOptions {m : Type → Type} [Monad m] (readFile : String → m (Option String)) :
    List String → Options → m (Except Refusal Options)
  | [], options => pure (.ok options)
  | "--config" :: [], _ => pure (.error .noConfigPath)
  | "--config" :: path :: rest, options => do
    match ← readFile path with
    | none => pure (.error (.unreadable path))
    | some json =>
      match Config.read json with
      | .error fault => pure (.error (.badConfig fault))
      | .ok config => readOptions readFile rest { options with config }
  | text :: rest, options => readOptions readFile rest { options with text := some text }

/-- The program's remarks on the text before it is played. -/
def remarks (text : String) : List String :=
  ((Registry.withBuiltins .common).validate text).report.map ("[tag_probe] " ++ ·)

def actionRemark (payload : String) : String := "\n[tag_probe] action: " ++ payload

def closingRemark (completed : Bool) : String :=
  "[tag_probe] done (completed: " ++ (if completed then "true" else "false") ++ ")"

/-- The stage with the session of a text, before its first step. -/
def opening (options : Options) (text : String) : Except Refusal (Stage Clock) :=
  let clock : Clock := { kind := .timer }
  match Stage.new? (.withBuiltins .common) clock options.config .common with
  | some st => .ok (st.listen.2.launch text none true).2
  | none => .error .noChannel

/-- What a part of the journal writes, given the text shown before. -/
structure Output where
  shown : String := ""
  standard : String := ""
  error : String := ""
  completed : Bool := false
  deriving DecidableEq, Repr

def Output.add (o : Output) : Entry → Output
  | .frame text => { o with shown := text, standard := o.standard ++ delta o.shown text }
  | .heard _ payload => { o with error := o.error ++ actionRemark payload ++ "\n" }
  | .completed _ => { o with completed := true }
  | _ => o

/-- All that is written, the closing remark apart. -/
def play (options : Options) (text : String) : Except Refusal Output :=
  (opening options text).map fun st =>
    let start : Output := { error := String.join ((remarks text).map (· ++ "\n")) }
    let o := st.join.2.journal.foldl Output.add start
    { o with standard := o.standard ++ "\n" }

end TextReveal.Terminal
