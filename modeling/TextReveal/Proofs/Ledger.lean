import TextReveal.Player.Stage
/-!
What sessions leave behind for those who listen: a block of events each, and the callbacks that have
run.
-/
namespace TextReveal

/-- The session that an event tells of, if it tells. -/
def Event.session? : Event → Option Nat
  | .started session | .completed session | .skipped session | .cancelled session => some session
  | .revealed .. => none

/-- How a session has ended, as far as it was published. -/
inductive Ending where
  | completed
  | cancelled
  /-- Somebody asked for the end; this is a completion too. -/
  | skipped
  deriving DecidableEq, Repr

namespace Ending

def events (id : Nat) : Ending → List Event
  | completed => [.completed id]
  | cancelled => [.cancelled id]
  | skipped => [.skipped id, .completed id]

def state : Ending → State
  | completed | skipped => .completed
  | cancelled => .cancelled

def isCompletion : Ending → Bool
  | completed | skipped => true
  | cancelled => false

/-- What is done to end a session so. -/
def effects (id : Nat) (e : Ending) : List Effect :=
  .setState e.state :: (e.events id).map .publish ++ if e.isCompletion then [.complete id] else []

end Ending

/-- A session as listeners know it. -/
structure Block where
  id : Nat
  /-- Whether a completion callback came with it. -/
  callback : Bool
  revealed : List (String × Nat) := []
  ending : Option Ending := none
  deriving DecidableEq, Repr

namespace Block

def events (b : Block) : List Event :=
  .started b.id :: b.revealed.map (fun r => .revealed r.1 r.2)
    ++ b.ending.toList.flatMap (Ending.events b.id)

theorem filter_events_self (b : Block) :
    b.events.filter (·.session? = some b.id) =
      .started b.id :: b.ending.toList.flatMap (Ending.events b.id) := by
  cases he : b.ending with
  | none => simp [events, he, Event.session?, List.filter_map]
  | some e => cases e <;> simp [events, he, Ending.events, Event.session?, List.filter_map]

theorem filter_events_of_ne (b : Block) {id : Nat} (h : b.id ≠ id) :
    b.events.filter (·.session? = some id) = [] := by
  cases he : b.ending with
  | none => simp [events, he, h, Event.session?, List.filter_map]
  | some e => cases e <;> simp [events, he, h, Ending.events, Event.session?, List.filter_map]

/-- Whether a completion was published. -/
def isCompleted (b : Block) : Bool := b.ending.any Ending.isCompletion

/-- Whose callback still waits. -/
def waiting (b : Block) : List Nat := if b.callback && !b.isCompleted then [b.id] else []

/-- Whose callback has run. -/
def ran (b : Block) : List Nat := if b.callback && b.isCompleted then [b.id] else []

def reveal (b : Block) (text : String) (offset : Nat) : Block :=
  { b with revealed := b.revealed ++ [(text, offset)] }

def close (b : Block) (e : Ending) : Block := { b with ending := some e }

theorem events_reveal {b : Block} (h : b.ending = none) (text : String) (offset : Nat) :
    (b.reveal text offset).events = b.events ++ [.revealed text offset] := by
  simp [events, reveal, h]

theorem waiting_reveal (b : Block) (text : String) (offset : Nat) :
    (b.reveal text offset).waiting = b.waiting := rfl

theorem ran_reveal (b : Block) (text : String) (offset : Nat) :
    (b.reveal text offset).ran = b.ran := rfl

theorem waiting_open {b : Block} (h : b.ending = none) :
    b.waiting = if b.callback then [b.id] else [] := by
  simp [waiting, isCompleted, h]

theorem ran_open {b : Block} (h : b.ending = none) : b.ran = [] := by
  simp [ran, isCompleted, h]

theorem waiting_close (b : Block) (e : Ending) :
    (b.close e).waiting = if b.callback && !e.isCompletion then [b.id] else [] := rfl

theorem ran_close (b : Block) (e : Ending) :
    (b.close e).ran = if b.callback && e.isCompletion then [b.id] else [] := rfl

theorem eq_of_mem_waiting {b : Block} {id : Nat} (h : id ∈ b.waiting) : id = b.id := by
  unfold waiting at h
  split at h <;> simp_all

theorem eq_of_mem_ran {b : Block} {id : Nat} (h : id ∈ b.ran) : id = b.id := by
  unfold ran at h
  split at h <;> simp_all

theorem ending_close (b : Block) (e : Ending) : (b.close e).ending ≠ none := by
  simp [close]

theorem events_close {b : Block} (h : b.ending = none) (e : Ending) :
    (b.close e).events = b.events ++ e.events b.id := by
  simp [events, close, h]

end Block

/-- The part of a stage that sessions are told apart by. -/
structure Ledger where
  events : List Event
  state : State
  /-- Sessions whose callback waits. -/
  waiting : List Nat
  /-- Sessions whose callback has run, once for each time. -/
  ran : List Nat

namespace Ledger

def perform (l : Ledger) : Effect → Ledger
  | .frame _ | .signal _ => l
  | .publish event => { l with events := l.events ++ [event] }
  | .setState state => { l with state }
  | .complete id =>
    if id ∈ l.waiting then { l with waiting := l.waiting.erase id, ran := l.ran ++ [id] } else l

/-- The blocks of a player so far. Only the last can be open, and is so while the player types. -/
structure Records (blocks : List Block) (l : Ledger) : Prop where
  events : l.events = blocks.flatMap Block.events
  ids : blocks.map Block.id = List.range' 1 blocks.length
  closed : ∀ b ∈ blocks.dropLast, b.ending.isSome
  typing : l.state = .typing ↔ ∃ b ∈ blocks.getLast?, b.ending = none
  waiting : l.waiting = blocks.flatMap Block.waiting
  ran : l.ran = blocks.flatMap Block.ran

variable {l : Ledger} {past blocks : List Block} {b : Block}

theorem perform_ending (l : Ledger) (id : Nat) (e : Ending) :
    (e.effects id).foldl perform l =
      if e.isCompletion ∧ id ∈ l.waiting then
        { events := l.events ++ e.events id, state := e.state, waiting := l.waiting.erase id
          ran := l.ran ++ [id] }
      else { l with events := l.events ++ e.events id, state := e.state } := by
  cases e <;>
    simp [Ending.effects, Ending.events, Ending.isCompletion, Ending.state, perform]

theorem Records.nodup (h : Records blocks l) : (blocks.map Block.id).Nodup := by
  rw [h.ids]
  exact List.nodup_range'

/-- The last block has a number of its own. -/
theorem Records.id_notMem (h : Records (past ++ [b]) l) : b.id ∉ past.map Block.id := by
  have hnodup := h.nodup
  rw [List.map_append, List.nodup_append] at hnodup
  intro hb
  exact hnodup.2.2 b.id hb b.id (by simp) rfl

theorem Records.id_eq (h : Records (past ++ [b]) l) : b.id = past.length + 1 := by
  have hids := h.ids
  rw [List.length_append, List.length_singleton, List.range'_concat, List.map_append] at hids
  have hlast := (List.append_inj' hids rfl).2
  simpa [Nat.add_comm] using hlast

theorem Records.reveal (h : Records (past ++ [b]) l) (hb : b.ending = none) (text : String)
    (offset : Nat) :
    Records (past ++ [b.reveal text offset]) (l.perform (.publish (.revealed text offset))) where
  events := by simp [perform, h.events, Block.events_reveal hb]
  ids := by simpa [Block.reveal] using h.ids
  closed := by simpa using h.closed
  typing := by simpa [perform, Block.reveal] using h.typing
  waiting := by simpa [perform, Block.waiting_reveal] using h.waiting
  ran := by simpa [perform, Block.ran_reveal] using h.ran

theorem Records.close (h : Records (past ++ [b]) l) (hb : b.ending = none) (e : Ending) :
    Records (past ++ [b.close e]) ((e.effects b.id).foldl perform l) := by
  -- The callback that runs is that of the last block, and no other waits under its number.
  have hfresh : b.id ∉ past.flatMap Block.waiting := by
    intro hmem
    obtain ⟨p, hp, hid⟩ := List.mem_flatMap.mp hmem
    exact h.id_notMem (List.mem_map.mpr ⟨p, hp, (Block.eq_of_mem_waiting hid).symm⟩)
  have hwaiting := h.waiting
  have hran := h.ran
  rw [List.flatMap_append, List.flatMap_singleton, Block.waiting_open hb] at hwaiting
  rw [List.flatMap_append, List.flatMap_singleton, Block.ran_open hb, List.append_nil] at hran
  have hstate : e.state ≠ .typing := by cases e <;> decide
  have hmem : b.id ∈ l.waiting ↔ b.callback := by
    rw [hwaiting, List.mem_append]
    cases b.callback <;> simp [hfresh]
  simp only [perform_ending, hmem]
  constructor
  · have hevents := h.events
    split <;> simp [hevents, Block.events_close hb]
  · simpa [Block.close] using h.ids
  · simpa using h.closed
  · split <;> simp [hstate, Block.close]
  · rw [List.flatMap_append, List.flatMap_singleton, Block.waiting_close]
    cases hcall : b.callback <;> cases hdone : e.isCompletion <;>
      simp [hcall, hwaiting, List.erase_append_right _ hfresh]
  · rw [List.flatMap_append, List.flatMap_singleton, Block.ran_close]
    cases hcall : b.callback <;> cases hdone : e.isCompletion <;> simp [hran]

theorem Records.begin {state : State} (h : state ≠ .typing) : Records [] ⟨[], state, [], []⟩ where
  events := rfl
  ids := rfl
  closed := by simp
  typing := by simpa using h
  waiting := rfl
  ran := rfl

theorem Records.forall_closed (h : Records (past ++ [b]) l) (hb : b.ending ≠ none) :
    ∀ x ∈ past ++ [b], x.ending.isSome := by
  have hpast := h.closed
  rw [List.dropLast_concat] at hpast
  intro x hx
  obtain hx | rfl := by simpa using hx
  · exact hpast x hx
  · exact Option.isSome_iff_ne_none.mpr hb

theorem Records.typing_iff (h : Records (past ++ [b]) l) : l.state = .typing ↔ b.ending = none := by
  simpa using h.typing

theorem Records.not_typing (h : Records blocks l) (hclosed : ∀ b ∈ blocks, b.ending.isSome) :
    l.state ≠ .typing := by
  intro htyping
  obtain ⟨b, hb, hopen⟩ := h.typing.mp htyping
  have hsome := hclosed b (List.mem_of_getLast? hb)
  simp [hopen] at hsome

theorem Records.setState (h : Records blocks l) (hclosed : ∀ b ∈ blocks, b.ending.isSome)
    {state : State} (hstate : state ≠ .typing) : Records blocks (l.perform (.setState state)) where
  events := h.events
  ids := h.ids
  closed := h.closed
  typing := iff_of_false hstate fun hopen => h.not_typing hclosed (h.typing.mpr hopen)
  waiting := h.waiting
  ran := h.ran

/-- A session opens a block of its own, once all others are closed. -/
theorem Records.start (h : Records blocks l) (hclosed : ∀ b ∈ blocks, b.ending.isSome)
    (callback : Bool) :
    Records (blocks ++ [{ id := blocks.length + 1, callback }])
      { l with
        events := l.events ++ [.started (blocks.length + 1)]
        state := .typing
        waiting := if callback then l.waiting ++ [blocks.length + 1] else l.waiting } where
  events := by simp [h.events, Block.events]
  ids := by simp [h.ids, List.range'_concat, Nat.add_comm]
  closed := by simpa using hclosed
  typing := by simp
  waiting := by cases callback <;> simp [h.waiting, Block.waiting, Block.isCompleted]
  ran := by simp [h.ran, Block.ran, Block.isCompleted]

/-- What is only in the block of one session, among the blocks of all. -/
theorem Records.filter_flatMap {α : Type} (h : Records blocks l) (hb : b ∈ blocks)
    {f : Block → List α} {p : α → Bool} (hp : ∀ a, a.id ≠ b.id → (f a).filter p = []) :
    (blocks.flatMap f).filter p = (f b).filter p := by
  have hnodup := h.nodup
  clear h
  induction blocks with
  | nil => cases hb
  | cons a rest ih =>
    rw [List.map_cons, List.nodup_cons] at hnodup
    rw [List.flatMap_cons, List.filter_append]
    obtain rfl | hrest := List.mem_cons.mp hb
    · have hlater : (rest.flatMap f).filter p = [] := by
        rw [List.filter_flatMap, List.flatMap_eq_nil_iff]
        intro x hx
        exact hp x fun hid => hnodup.1 (hid ▸ List.mem_map_of_mem hx)
      rw [hlater, List.append_nil]
    · have hfirst : (f a).filter p = [] :=
        hp a fun hid => hnodup.1 (hid ▸ List.mem_map_of_mem hrest)
      rw [hfirst, List.nil_append, ih hrest hnodup.2]

/-- A callback has run once if its session is completed, and else not at all. -/
theorem Records.count_ran (h : Records blocks l) (hb : b ∈ blocks) :
    l.ran.count b.id = if b.callback ∧ b.isCompleted then 1 else 0 := by
  have hother (a : Block) (hid : a.id ≠ b.id) : a.ran.filter (· == b.id) = [] := by
    rw [Block.ran]
    split <;> simp [hid]
  rw [h.ran, List.count_eq_length_filter, h.filter_flatMap hb hother, Block.ran]
  split <;> simp_all

/-- The events that tell of one session. -/
theorem Records.filter_events (h : Records blocks l) (hb : b ∈ blocks) :
    l.events.filter (·.session? = some b.id) =
      .started b.id :: b.ending.toList.flatMap (Ending.events b.id) := by
  rw [h.events, h.filter_flatMap hb fun a hid => a.filter_events_of_ne hid]
  exact b.filter_events_self

end Ledger

/-- The session whose callback an entry is. -/
def Entry.ran? : Entry → Option Nat
  | .completed session => some session
  | _ => none

theorem count_completed (entries : List Entry) (id : Nat) :
    entries.count (.completed id) = (entries.filterMap Entry.ran?).count id := by
  induction entries with
  | nil => rfl
  | cons entry rest ih =>
    rw [List.count_cons, ih]
    cases entry <;> simp [List.filterMap_cons, Entry.ran?, List.count_cons]

namespace Stage
variable {σ : Type}

def ledger (st : Stage σ) : Ledger where
  events := st.channel.sent.toList
  state := st.player.state
  waiting := st.callbacks
  ran := st.journal.toList.filterMap Entry.ran?

theorem ledger_note (st : Stage σ) {entry : Entry} (h : entry.ran? = none) :
    (st.note entry).ledger = st.ledger := by
  simp [ledger, note, h]

theorem ledger_fire (st : Stage σ) (payload : String) : (st.fire payload).ledger = st.ledger := by
  unfold fire
  generalize st.listeners.ids = ids
  induction ids generalizing st with
  | nil => rfl
  | cons id ids ih => rw [List.foldl_cons, ih, ledger_note st rfl]

theorem ledger_signal (st : Stage σ) (s : Signal) : (st.signal s).ledger = st.ledger := by
  cases s with
  | called call => exact ledger_note st rfl
  | action hub payload =>
    rw [signal]
    split
    · rw [ledger_fire, ledger_note st rfl]
    · exact ledger_note st rfl

theorem ledger_perform (st : Stage σ) (e : Effect) :
    (st.perform e).ledger = st.ledger.perform e := by
  cases e with
  | frame => exact ledger_note st rfl
  | publish event => simp [perform, publish, note, ledger, Channel.send, Ledger.perform, Entry.ran?]
  | setState => rfl
  | complete session =>
    simp only [perform, runCallback, Ledger.perform]
    split <;> rename_i h
    · simp [ledger, note, h, Entry.ran?]
    · simp [ledger, h]
  | signal s => exact ledger_signal st s

end Stage
end TextReveal
