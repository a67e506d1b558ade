import TextReveal.Proofs.Soundness
import TextReveal.Session
/-!
How sessions are put together. Whatever the text and its handlers are, and wherever these land, the
nodes of a session come in a few patterns; what each of the patterns keeps holds of every session.
-/
namespace TextReveal.Session

/-- A session numbered `id` that meets handlers like these and asks for names like these. If it is
`woken`, it has stopped since it last looked whether it is cancelled, and does little before it
looks. It may be cancelled wherever it stops, and goes on from there with a look. -/
inductive Composed (id : Nat) (meets : Handler → Prop) (asks : String → Prop) :
    Bool → Session → Prop
  | complete {woken : Bool} : Composed id meets asks woken (.complete id)
  | abandon {woken : Bool} : Composed id meets asks woken (.abandon id)
  | crashed {woken : Bool} {h : Handler} (hmeets : meets h) (hsound : ¬h.Sound) :
    Composed id meets asks woken .crashed
  | frame {text : String} {next : Session} (h : Composed id meets asks false next) :
    Composed id meets asks false (.perform (.frame text) next)
  | reveal {text : String} {offset : Nat} {next : Session}
    (h : Composed id meets asks false next) :
    Composed id meets asks false (.perform (.publish (.revealed text offset)) next)
  | signal {woken : Bool} {s : Signal} {next : Session} (h : Composed id meets asks woken next) :
    Composed id meets asks woken (.perform (.signal s) next)
  | resolve {name : String} {next : Option Handler → Session} (hname : asks name)
    (h : ∀ found : Option Handler, (∀ h ∈ found, meets h) →
      Composed id meets asks false (next found)) :
    Composed id meets asks false (.resolve name next)
  | guarded {woken : Bool} {next : Unit → Session} (h : Composed id meets asks false (next ())) :
    Composed id meets asks woken (.guarded id next)
  | yield {next : Unit → Session} (h : Composed id meets asks false (next ())) :
    Composed id meets asks false (.yield (.guarded id next))
  | poised {next : Unit → Session} (h : Composed id meets asks false (next ())) :
    Composed id meets asks false (.poised id next)
  | sleep {woken : Bool} {seconds : Number.Single} {next : Wake → Session}
    (hcancelled : next .cancelled = .abandon id)
    (h : ∀ wake, Composed id meets asks true (next wake)) :
    Composed id meets asks woken (.sleep seconds next)

variable {id : Nat} {meets : Handler → Prop} {asks : String → Prop} {woken : Bool}

theorem composed_delay {ctx : Context} {next : Unit → Session}
    (h : Composed id meets asks false (next ())) :
    Composed id meets asks false (delay id ctx next) := by
  unfold delay
  split
  · refine .poised (.sleep rfl fun wake => ?_)
    cases wake with
    | elapsed => exact .guarded h
    | failed => exact .abandon
    | cancelled => exact .abandon
  · exact h

theorem composed_turn {step : Nat} {ctx : Context} {next : Unit → Session}
    (h : Composed id meets asks false (next ())) :
    Composed id meets asks woken (turn id step ctx next) := by
  refine .guarded ?_
  split
  · exact .yield h
  · exact h

theorem composed_signals {list : List Signal} {next : Session}
    (h : Composed id meets asks woken next) :
    Composed id meets asks woken (signals list next) := by
  induction list with
  | nil => exact h
  | cons s list ih => exact .signal ih

section Handled
variable {h : Handler} {next : Context → Response → Session}

theorem composed_judge {reply : Reply} (hmeets : meets h)
    (hreply : h.Sound → reply.verdict ≠ .crashed)
    (hnext : ∀ ctx r, Composed id meets asks false (next ctx r)) :
    Composed id meets asks false (judge id reply next) := by
  unfold judge
  split
  · exact hnext _ _
  · exact .abandon
  · exact hnext _ _
  · exact .crashed hmeets fun hsound => hreply hsound ‹_›

theorem composed_ofLive {effect : LiveEffect} (hmeets : meets h)
    (heffect : h.Sound → effect.Sound)
    (hnext : ∀ ctx r, Composed id meets asks false (next ctx r)) :
    Composed id meets asks woken (ofLive id next effect) := by
  induction effect generalizing woken with
  | done reply =>
    refine composed_signals ?_
    split
    · exact .crashed hmeets fun hsound => heffect hsound ‹_›
    · exact .guarded (composed_judge hmeets heffect hnext)
  | signal s effect ih => exact .signal (ih heffect)
  | wait seconds resume ih =>
    rw [ofLive]
    refine .sleep rfl fun wake => ?_
    cases wake with
    | elapsed => exact ih _ fun hsound => heffect hsound _
    | failed reason => exact ih _ fun hsound => heffect hsound _
    | cancelled => exact .abandon

theorem composed_runTag {t : Tag} {ctx : Context} (hmeets : meets h)
    (hnext : ∀ ctx r, Composed id meets asks false (next ctx r)) :
    Composed id meets asks false (runTag id h t ctx next) := by
  unfold runTag
  split
  · exact composed_signals (composed_judge hmeets (·.closing ctx) hnext)
  · split
    · exact .poised (composed_ofLive hmeets (·.live ctx t.parameter) hnext)
    · exact composed_signals (composed_judge hmeets (·.opening ctx t.parameter) hnext)

end Handled

theorem composed_announce {text : Option String} {offset : Nat} {next : Session}
    (h : Composed id meets asks false next) :
    Composed id meets asks false (announce text offset next) := by
  cases text with
  | none => exact h
  | some text => exact .reveal h

theorem composed_showResponse {position : Nat} {r : Response} {ctx : Context}
    {next : Context → Session} (h : ∀ ctx, Composed id meets asks false (next ctx)) :
    Composed id meets asks false (showResponse id position r ctx next) := by
  refine composed_announce (.frame ?_)
  split
  · exact composed_delay (h _)
  · exact h _

theorem composed_showChar {position : Nat} {c : Char} {ctx : Context} {next : Context → Session}
    (h : ∀ ctx, Composed id meets asks false (next ctx)) :
    Composed id meets asks false (showChar id position c ctx next) :=
  .reveal (.frame (composed_delay (h _)))

theorem composed_reveal {tags : List Tag} (htags : ∀ t ∈ tags, asks t.name) (policy : UnknownTags)
    (chars : List Char) (position resume steps : Nat) (ctx : Context) (woken : Bool) :
    Composed id meets asks woken (reveal id policy chars position resume steps tags ctx) := by
  -- The induction is on the text: a handler may land anywhere, but never goes back.
  induction chars generalizing position resume steps tags ctx woken with
  | nil => exact .complete
  | cons c rest ih =>
    rw [reveal]
    split
    · exact ih htags ..
    · obtain ⟨hhere, hlater⟩ := Tag.mem_of_reach (rfl : Tag.reach position tags = (_, _))
      have hrest := ih fun t ht => htags t (hlater t ht)
      refine composed_turn ?_
      dsimp only
      split
      · exact composed_showChar fun _ => hrest ..
      · rename_i t hreach
        refine .resolve (htags t (hhere t hreach)) fun found hfound => ?_
        cases found with
        | some h =>
          exact composed_runTag (hfound h rfl) fun _ _ => composed_showResponse fun _ => hrest ..
        | none =>
          cases policy with
          | consume => exact .frame (hrest ..)
          | literal => exact composed_showChar fun _ => hrest ..

/-- A session over a text asks for the names of its tags, and may meet any handler there. -/
theorem composed_start (id : Nat) (meets : Handler → Prop) (policy : UnknownTags) (source : String)
    (tags : List Tag) (speed : Number.Single) (woken : Bool) :
    Composed id meets (· ∈ tags.map Tag.name) woken (start id policy source tags speed) :=
  composed_reveal (fun _ ht => List.mem_map_of_mem ht) ..

end TextReveal.Session
