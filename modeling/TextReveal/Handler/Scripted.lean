import TextReveal.Handler
/-!
Handlers that are given as data. They report every call, with the context they were called in.
-/
namespace TextReveal.Handler
open Number

structure ScriptedEffect where
  /-- Waited for at the start of a live effect. -/
  delay : Option Single := none
  /-- Breaks down, in a live session only. -/
  crash : Bool := false
  /-- Counts up the extension `n`. -/
  count : Bool := false
  setSpeed : Option Single := none
  push : Option String := none
  failure : Option Failure := none
  response : Response := {}

inductive StripRule where
  | always
  | never
  | evenStart
  deriving DecidableEq, Repr

def StripRule.holds : StripRule → Nat → Bool
  | always, _ => true
  | never, _ => false
  | evenStart, start => start % 2 == 0

structure Script where
  name : String
  isRegion : Bool := false
  strip : StripRule := .always
  opening : ScriptedEffect := {}
  /-- Without one, closing tags are handled and invisible, and not reported. -/
  closing : Option ScriptedEffect := some {}
  live : Option ScriptedEffect := none

/-- Puts the parameter wherever a pair of braces stands. -/
def fillBraces (parameter : List Char) : List Char → List Char
  | '\x7b' :: '\x7d' :: rest => parameter ++ fillBraces parameter rest
  | c :: rest => c :: fillBraces parameter rest
  | [] => []

def ScriptedEffect.adjust (e : ScriptedEffect) (ctx : Context) : Context :=
  let ctx := if e.count then ctx.setExtension "n" ((ctx.extension? "n").getD 0 + 1) else ctx
  let ctx := { ctx with speed := e.setSpeed.getD ctx.speed }
  ctx.append (e.push.getD "")

/-- Everything but the report and the delay. -/
def ScriptedEffect.apply (e : ScriptedEffect) (ctx : Context) (parameter : String) : Reply :=
  if e.crash ∧ ctx.mode = .live then { context := ctx, verdict := .crashed }
  else
    let fill (text : String) := String.ofList (fillBraces parameter.toList text.toList)
    { context := e.adjust ctx
      verdict := match e.failure with
        | some failure => .failed failure
        | none => .answered { e.response with replacement := e.response.replacement.map fill } }

def ScriptedEffect.reported (e : ScriptedEffect) (call : Call) : Reply :=
  { e.apply call.context call.parameter with signals := [.called call] }

def ScriptedEffect.liveReported (e : ScriptedEffect) (call : Call) : LiveEffect :=
  .signal (.called call) <|
    match e.delay with
    | none => .done (e.apply call.context call.parameter)
    | some seconds => .wait seconds fun
      | .ok _ => .done (e.apply call.context call.parameter)
      | .error reason => .done (.fail call.context (.clock reason))

def scripted (s : Script) : Handler where
  name := s.name
  isRegion := s.isRegion
  strips _ start := s.strip.holds start
  opening ctx parameter := s.opening.reported ⟨s.name, .opening, parameter, ctx⟩
  closing ctx :=
    match s.closing with
    | some effect => effect.reported ⟨s.name, .closing, "", ctx⟩
    | none => .answer ctx .invisible
  live := s.live.map fun effect ctx parameter =>
    effect.liveReported ⟨s.name, .live, parameter, ctx⟩

end TextReveal.Handler
