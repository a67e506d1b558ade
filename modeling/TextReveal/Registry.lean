import TextReveal.Handler.Action
import TextReveal.Handler.Markup
import TextReveal.Handler.Pacing
import TextReveal.Name
import Std.Data.TreeMap
/-!
Registries: handlers by normalized name.
-/
namespace TextReveal

structure Registry where
  handlers : Std.TreeMap String Handler := {}
  /-- The hub that the built-in `action` fires. -/
  hub : HubRef := .own

namespace Registry

def styleNames : List String := ["color", "size", "b", "i", "u"]

def builtins (hub : HubRef) : List Handler :=
  [.speed, .speedRegion, .pause, .clear, .lineBreak "br", .lineBreak "n", .action hub]
    ++ styleNames.map .markup

def empty (hub : HubRef) : Registry := { hub }

def register (r : Registry) (h : Handler) : Registry :=
  { r with handlers := r.handlers.insert (Name.normalize h.name) h }

/-- Whether there was such a handler, and the registry without it. -/
def unregister (r : Registry) (name : String) : Bool × Registry :=
  let key := Name.normalize name
  (r.handlers.contains key, { r with handlers := r.handlers.erase key })

def get? (r : Registry) (name : String) : Option Handler :=
  r.handlers[Name.normalize name]?

def has (r : Registry) (name : String) : Bool :=
  r.handlers.contains (Name.normalize name)

/-- In increasing order of code points. -/
def names (r : Registry) : List String := r.handlers.keys

def size (r : Registry) : Nat := r.handlers.size

def clear (r : Registry) : Registry := { r with handlers := {} }

/-- The built-in handlers and no others. Their names are keys as they are. -/
def reset (r : Registry) : Registry :=
  { r with handlers := (builtins r.hub).foldl (fun m h => m.insert h.name h) {} }

def withBuiltins (hub : HubRef) : Registry := (empty hub).reset

end Registry
end TextReveal
