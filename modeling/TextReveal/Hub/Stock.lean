import TextReveal.Hub.Reaction
/-!
Listeners of a few kinds, and a hub that has only those. All of them note what they hear.
-/
namespace TextReveal.Hub

inductive Stock where
  | plain
  /-- Then unsubscribes a listener, itself if no other is named. -/
  | remover (target : Option Nat)
  /-- Then adds a plain listener. -/
  | adder
  /-- Then repeats the payload with one more mark, unless it has `depth` marks already. -/
  | echo (depth : Nat)
  deriving DecidableEq, Repr

def marks (payload : String) : Nat := payload.toList.count '!'

def Stock.reaction (kind : Stock) (self : Nat) (payload : String) : Reaction :=
  .note (.heard self payload) <|
    match kind with
    | plain => .done
    | remover target =>
      let target := target.getD self
      .known target fun known =>
        if known then .unsubscribe target fun was => .note (.removed self was) .done else .done
    | adder => .subscribe (fun self payload => .note (.heard self payload) .done) fun _ => .done
    | echo depth =>
      if marks payload < depth then
        .emit (payload ++ "!") fun reached => .note (.echoed self reached) .done
      else .done

/-- Every emit inside an emit has one mark more, so that they lie at most one deeper than the echoes
go. -/
structure StockHub where
  hub : Hub := {}
  deepestEcho : Nat := 0

namespace StockHub

def subscribe (s : StockHub) (kind : Stock) : Nat × StockHub :=
  let (id, hub) := s.hub.subscribe kind.reaction
  let depth := match kind with
    | .echo depth => depth
    | _ => 0
  (id, { hub, deepestEcho := max s.deepestEcho depth })

def emit (s : StockHub) (payload : String) : Nat × StockHub :=
  match s.hub.emit? (s.deepestEcho + 1) payload with
  | some (reached, hub) => (reached, { s with hub })
  | none => (0, s)

end StockHub
end TextReveal.Hub
