import Mathlib.Data.List.Basic
import TextReveal.Hub.Reaction
/-!
A hub beside a book of what happens at it. The hub knows nothing of the book, and the book changes
nothing at the hub. An emit goes by the number of moments that were in the book when it began, so
that emits inside emits can be told apart.
-/
namespace TextReveal.Hub

inductive Moment where
  | subscribed (id : Nat)
  /-- A receiver came with the number. -/
  | opened (id : Nat)
  | unsubscribed (id : Nat)
  | cleared
  | begun (payload : String)
  | called (emit id : Nat) (payload : String)
  | ended (emit reached : Nat)
  | received (id : Nat) (payload : String)
  | dropped (id : Nat)
  deriving DecidableEq, Repr

/-- The number that a moment gives out, if it does. -/
@[simp] def Moment.subscription? : Moment → Option Nat
  | subscribed id => some id
  | _ => none

/-- The numbers that were given out, in this order. -/
def subscriptions (js : List Moment) : List Nat := js.filterMap Moment.subscription?

/-- Whether a number was given out and neither removed nor cleared since. -/
def Subscribed (js : List Moment) (id : Nat) : Prop :=
  ∃ earlier later, js = earlier ++ .subscribed id :: later ∧
    .unsubscribed id ∉ later ∧ .cleared ∉ later

@[simp] def Moment.callOf? (emit : Nat) : Moment → Option (Nat × String)
  | called e id payload => if e = emit then some (id, payload) else none
  | _ => none

@[simp] def Moment.endOf? (emit : Nat) : Moment → Option Nat
  | ended e reached => if e = emit then some reached else none
  | _ => none

@[simp] def Moment.deliveryTo? (id : Nat) : Moment → Option (Nat × String)
  | called e i payload => if i = id then some (e, payload) else none
  | _ => none

@[simp] def Moment.receiptBy? (id : Nat) : Moment → Option String
  | received i payload => if i = id then some payload else none
  | _ => none

/-- Whom an emit has called, and with what. -/
def callsOf (emit : Nat) (js : List Moment) : List (Nat × String) :=
  js.filterMap (Moment.callOf? emit)

/-- What an emit has returned. -/
def endsOf (emit : Nat) (js : List Moment) : List Nat := js.filterMap (Moment.endOf? emit)

/-- The emits that have called a listener, each with its payload. -/
def deliveries (id : Nat) (js : List Moment) : List (Nat × String) :=
  js.filterMap (Moment.deliveryTo? id)

/-- What a receiver has yielded. -/
def receivedBy (id : Nat) (js : List Moment) : List String := js.filterMap (Moment.receiptBy? id)

/-- The emit at a place of the book has called everybody who was subscribed when it began, and
nobody else, and has returned their number. -/
def Settles (js : List Moment) (emit : Nat) (payload : String) : Prop :=
  ∃ ids : List Nat, ids.Pairwise (· < ·) ∧ (∀ id, id ∈ ids ↔ Subscribed (js.take emit) id) ∧
    callsOf emit js = ids.map (·, payload) ∧ endsOf emit js = [ids.length]

section Moments
variable {js more : List Moment} {id : Nat}

@[simp] theorem subscriptions_append :
    subscriptions (js ++ more) = subscriptions js ++ subscriptions more :=
  List.filterMap_append

@[simp] theorem callsOf_append {emit : Nat} :
    callsOf emit (js ++ more) = callsOf emit js ++ callsOf emit more :=
  List.filterMap_append

@[simp] theorem endsOf_append {emit : Nat} :
    endsOf emit (js ++ more) = endsOf emit js ++ endsOf emit more :=
  List.filterMap_append

@[simp] theorem deliveries_append :
    deliveries id (js ++ more) = deliveries id js ++ deliveries id more :=
  List.filterMap_append

@[simp] theorem receivedBy_append :
    receivedBy id (js ++ more) = receivedBy id js ++ receivedBy id more :=
  List.filterMap_append

@[simp] theorem subscriptions_singleton (m : Moment) :
    subscriptions [m] = m.subscription?.toList := by
  cases m <;> rfl

theorem mem_subscriptions_iff : id ∈ subscriptions js ↔ .subscribed id ∈ js := by
  simp only [subscriptions, List.mem_filterMap]
  constructor
  · rintro ⟨m, hm, hid⟩
    cases m <;> simp_all
  · exact fun h => ⟨_, h, rfl⟩

theorem subscribed_append_singleton {m : Moment} :
    Subscribed (js ++ [m]) id ↔
      m = .subscribed id ∨ Subscribed js id ∧ m ≠ .unsubscribed id ∧ m ≠ .cleared := by
  constructor
  · rintro ⟨earlier, later, hsplit, hun, hcl⟩
    rcases List.eq_nil_or_concat later with rfl | ⟨later, last, rfl⟩
    · exact .inl (List.head_eq_of_cons_eq (List.append_inj' hsplit rfl).2)
    · rw [List.concat_eq_append] at hsplit hun hcl
      rw [← List.cons_append, ← List.append_assoc] at hsplit
      obtain ⟨rfl, hlast⟩ := List.append_inj' hsplit rfl
      obtain rfl : m = last := by simpa using hlast
      simp only [List.mem_append, List.mem_singleton, not_or] at hun hcl
      exact .inr ⟨⟨earlier, later, rfl, hun.1, hcl.1⟩, Ne.symm hun.2, Ne.symm hcl.2⟩
  · rintro (rfl | ⟨⟨earlier, later, rfl, hun, hcl⟩, hnun, hncl⟩)
    · exact ⟨js, [], rfl, by simp, by simp⟩
    · exact ⟨earlier, later ++ [m], by simp, by simp [hun, hnun.symm], by simp [hcl, hncl.symm]⟩

theorem Subscribed.mem_subscriptions (h : Subscribed js id) : id ∈ subscriptions js := by
  obtain ⟨earlier, later, rfl, -⟩ := h
  simp [mem_subscriptions_iff]

/-- A call lies in the book once for its emit and once for its listener. -/
theorem count_deliveries (emit id : Nat) (payload : String) (js : List Moment) :
    (deliveries id js).count (emit, payload) = (callsOf emit js).count (id, payload) := by
  induction js with
  | nil => rfl
  | cons m js ih =>
    simp only [deliveries, callsOf, List.filterMap_cons] at ih ⊢
    cases m with
    | called e i p =>
      by_cases hi : i = id <;> by_cases he : e = emit <;>
        simp [hi, he, List.count_cons, ih]
    | _ => exact ih

end Moments

structure Book where
  hub : Hub := {}
  journal : List Moment := []

namespace Book

/-- Enters a moment that leaves the hub as given. -/
def enter (b : Book) (m : Moment) (hub : Hub) : Book := ⟨hub, b.journal ++ [m]⟩

def subscribe (b : Book) (listener : Nat → String → Reaction) : Nat × Book :=
  let (id, hub) := b.hub.subscribe listener
  (id, b.enter (.subscribed id) hub)

def channel (b : Book) : Nat × Book :=
  let (id, hub) := b.hub.channel
  (id, (b.enter (.subscribed id) b.hub).enter (.opened id) hub)

def unsubscribe (b : Book) (id : Nat) : Bool × Book :=
  let (was, hub) := b.hub.unsubscribe id
  (was, b.enter (.unsubscribed id) hub)

def clear (b : Book) : Book := b.enter .cleared b.hub.clear

def receive (b : Book) (id : Nat) : Option Receipt × Book :=
  let (receipt, hub) := b.hub.receive id
  match receipt with
  | some (.payload payload) => (receipt, b.enter (.received id payload) hub)
  | _ => (receipt, { b with hub })

def dropReceiver (b : Book) (id : Nat) : Bool × Book :=
  let (was, hub) := b.hub.dropReceiver id
  (was, if was then b.enter (.dropped id) hub else { b with hub })

/-- Runs a reaction, given what an emit inside it does. -/
def react (emit : String → Book → Option (Nat × Book)) : Reaction → Book → Option Book
  | .done, b => some b
  | .note n next, b => react emit next { b with hub := b.hub.addNote n }
  | .lookBack next, b => react emit (next b.hub.notes) b
  | .subscribe listener next, b =>
    let (id, b) := b.subscribe listener
    react emit (next id) b
  | .channel next, b =>
    let (id, b) := b.channel
    react emit (next id) b
  | .unsubscribe id next, b =>
    let (was, b) := b.unsubscribe id
    react emit (next was) b
  | .known id next, b => react emit (next (b.hub.knows id)) b
  | .clear next, b => react emit next b.clear
  | .emit payload next, b =>
    match emit payload b with
    | some (reached, b) => react emit (next reached) b
    | none => none

/-- Calls a listener on behalf of an emit. -/
def call (emit : String → Book → Option (Nat × Book)) (number : Nat) (payload : String) (b : Book) :
    Nat × Listener → Option Book
  | (id, .reacts f) => react emit (f payload) (b.enter (.called number id payload) b.hub)
  | (id, .queues) => some (b.enter (.called number id payload) (b.hub.enqueue id payload))

def emit? (depth : Nat) (payload : String) (b : Book) : Option (Nat × Book) :=
  match depth with
  | 0 => none
  | depth + 1 =>
    (b.hub.roster.entries.foldlM (call (emit? depth) b.journal.length payload)
        (b.enter (.begun payload) b.hub)).map fun b' =>
      (b.hub.roster.count, b'.enter (.ended b.journal.length b.hub.roster.count) b'.hub)

section Hub
variable {emit : String → Book → Option (Nat × Book)}
  {emit' : String → Hub → Option (Nat × Hub)}

theorem hub_react (h : ∀ payload b, (emit payload b).map (·.map id hub) = emit' payload b.hub)
    (r : Reaction) (b : Book) : (b.react emit r).map hub = Hub.react emit' r b.hub := by
  induction r generalizing b with
  | done => rfl
  | emit payload next ih =>
    rw [react, Hub.react, ← h payload b]
    cases emit payload b with
    | none => rfl
    | some answer => exact ih answer.1 answer.2
  | note n next ih => exact ih { b with hub := b.hub.addNote n }
  | lookBack next ih => exact ih b.hub.notes b
  | subscribe listener next _ ih => exact ih _ (b.subscribe listener).2
  | channel next ih => exact ih _ b.channel.2
  | unsubscribe id next ih => exact ih _ (b.unsubscribe id).2
  | known id next ih => exact ih _ b
  | clear next ih => exact ih b.clear

theorem hub_call (h : ∀ payload b, (emit payload b).map (·.map id hub) = emit' payload b.hub)
    (number : Nat) (payload : String) (b : Book) (l : Nat × Listener) :
    (b.call emit number payload l).map hub = deliver emit' payload b.hub l := by
  obtain ⟨id, f | -⟩ := l
  · exact hub_react h (f payload) _
  · rfl

end Hub

/-- The book is only kept beside the hub. -/
theorem hub_emit? (depth : Nat) (payload : String) (b : Book) :
    (b.emit? depth payload).map (·.map id hub) = b.hub.emit? depth payload := by
  induction depth generalizing payload b with
  | zero => rfl
  | succ depth ih =>
    have hfold (ls : List (Nat × Listener)) (c : Book) :
        (ls.foldlM (call (emit? depth) b.journal.length payload) c).map hub =
          ls.foldlM (deliver (Hub.emit? depth) payload) c.hub := by
      induction ls generalizing c with
      | nil => rfl
      | cons l ls ihls =>
        rw [List.foldlM_cons, List.foldlM_cons, ← hub_call ih b.journal.length payload c l]
        cases c.call (emit? depth) b.journal.length payload l with
        | none => rfl
        | some c' => exact ihls c'
    have hcalled : _ = b.hub.roster.entries.foldlM (deliver (Hub.emit? depth) payload) b.hub :=
      hfold b.hub.roster.entries (b.enter (.begun payload) b.hub)
    rw [emit?, Hub.emit?, ← hcalled]
    cases b.hub.roster.entries.foldlM (call (emit? depth) b.journal.length payload)
      (b.enter (.begun payload) b.hub) <;> rfl

/-- A book that has been kept from the beginning, whatever was done to the hub. -/
inductive Kept : Book → Prop
  | begin : Kept {}
  | subscribe {b : Book} (h : Kept b) (listener : Nat → String → Reaction) :
    Kept (b.subscribe listener).2
  | channel {b : Book} (h : Kept b) : Kept b.channel.2
  | unsubscribe {b : Book} (h : Kept b) (id : Nat) : Kept (b.unsubscribe id).2
  | clear {b : Book} (h : Kept b) : Kept b.clear
  | emit {b b' : Book} (h : Kept b) {depth reached : Nat} {payload : String}
    (he : b.emit? depth payload = some (reached, b')) : Kept b'
  | receive {b : Book} (h : Kept b) (id : Nat) : Kept (b.receive id).2
  | dropReceiver {b : Book} (h : Kept b) (id : Nat) : Kept (b.dropReceiver id).2
  /-- What listeners have left behind belongs to everybody. -/
  | notes {b : Book} (h : Kept b) (notes : List Note) :
    Kept { b with hub := { b.hub with notes } }

end Book
end TextReveal.Hub
