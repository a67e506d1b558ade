import Mathlib.Data.List.Infix
import TextReveal.Proofs.Journal
/-!
The hub is always as the book has it, and an emit that has ended is settled for good: however
listeners deal with the hub while they are called, it has called those who were subscribed when it
began, once each and by number.
-/
namespace TextReveal.Hub

/-- The emit that a moment belongs to. -/
@[simp] def Moment.emit? : Moment → Option Nat
  | called e _ _ | ended e _ => some e
  | _ => none

/-- The receiver of `id`, if there is one, holds what it was given and has not yielded. -/
def Receives (js : List Moment) (id : Nat) : Option (List String) → Prop
  | some q => .opened id ∈ js ∧ .dropped id ∉ js ∧
      receivedBy id js ++ q = (deliveries id js).map Prod.snd
  | none => .opened id ∈ js → .dropped id ∈ js

/-- A moment is about numbers below `next`, and about an emit that has begun. -/
def Moment.Refers (js : List Moment) (next : Nat) : Moment → Prop
  | called e id payload => js[e]? = some (.begun payload) ∧ id < next
  | ended e _ => e < js.length
  | opened id | received id _ | dropped id => id < next
  | _ => True

section Moments
variable {js more : List Moment} {m : Moment} {id e next next' : Nat}

theorem callsOf_eq_nil (h : ∀ m ∈ js, m.emit? ≠ some e) : callsOf e js = [] := by
  rw [callsOf, List.filterMap_eq_nil_iff]
  intro m hm
  have := h m hm
  cases m <;> simp_all

theorem endsOf_eq_nil (h : ∀ m ∈ js, m.emit? ≠ some e) : endsOf e js = [] := by
  rw [endsOf, List.filterMap_eq_nil_iff]
  intro m hm
  have := h m hm
  cases m <;> simp_all

theorem Moment.Refers.mono (h : m.Refers js next) (hjs : js <+: more) (hnext : next ≤ next') :
    m.Refers more next' := by
  have hget (e : Nat) (m : Moment) (h : js[e]? = some m) : more[e]? = some m := by
    obtain ⟨rest, rfl⟩ := hjs
    rw [List.getElem?_append_left (List.getElem?_eq_some_iff.mp h).1, h]
  cases m with
  | called e id payload => exact ⟨hget _ _ h.1, h.2.trans_le hnext⟩
  | ended e reached => exact Nat.lt_of_lt_of_le h hjs.length_le
  | opened id => exact Nat.lt_of_lt_of_le h hnext
  | received id payload => exact Nat.lt_of_lt_of_le h hnext
  | dropped id => exact Nat.lt_of_lt_of_le h hnext
  | _ => trivial

/-- Whether a moment concerns the receiver of `id`. -/
@[simp] def Moment.concerns (id : Nat) : Moment → Bool
  | called _ i _ | opened i | received i _ | dropped i => i = id
  | _ => false

theorem receivedBy_eq_nil (h : ∀ m ∈ js, m.concerns id = false) : receivedBy id js = [] := by
  rw [receivedBy, List.filterMap_eq_nil_iff]
  intro m hm
  have := h m hm
  cases m <;> simp_all

theorem deliveries_eq_nil (h : ∀ m ∈ js, m.concerns id = false) : deliveries id js = [] := by
  rw [deliveries, List.filterMap_eq_nil_iff]
  intro m hm
  have := h m hm
  cases m <;> simp_all

theorem Receives.append {q : Option (List String)} (h : Receives js id q)
    (hm : m.concerns id = false) : Receives (js ++ [m]) id q := by
  have ho : Moment.opened id ≠ m := by rintro rfl; simp at hm
  have hd : Moment.dropped id ≠ m := by rintro rfl; simp at hm
  have hall : ∀ n ∈ [m], n.concerns id = false := by simpa using hm
  have hrec := receivedBy_eq_nil hall
  have hdel := deliveries_eq_nil hall
  cases q with
  | none => simpa [Receives, ho, hd] using h
  | some q => simpa [Receives, ho, hd, hrec, hdel] using h

theorem Settles.grow {payload : String} (h : Settles js e payload) (hjs : js <+: more)
    (he : e < js.length) (hcalls : callsOf e more = callsOf e js)
    (hends : endsOf e more = endsOf e js) : Settles more e payload := by
  obtain ⟨ids, hsorted, hmem, hcalled, hended⟩ := h
  obtain ⟨rest, rfl⟩ := hjs
  refine ⟨ids, hsorted, fun id => ?_, hcalls.trans hcalled, hends.trans hended⟩
  rw [List.take_append_of_le_length he.le]
  exact hmem id

end Moments

/-- One queue changes, the others stay. -/
theorem lookup_change (qs : List (Nat × List String)) (f : List String → List String)
    (id i : Nat) :
    (qs.map fun (j, q) => if j = id then (j, f q) else (j, q)).lookup i =
      if i = id then (qs.lookup i).map f else qs.lookup i := by
  induction qs with
  | nil => simp
  | cons entry qs ih =>
    obtain ⟨j, q⟩ := entry
    by_cases hj : j = id <;> by_cases hi : i = j <;>
      simp_all [List.lookup_cons, beq_false_of_ne]

theorem lookup_drop (qs : List (Nat × List String)) (id i : Nat) :
    (qs.filter (·.1 ≠ id)).lookup i = if i = id then none else qs.lookup i := by
  induction qs with
  | nil => simp
  | cons entry qs ih =>
    obtain ⟨j, q⟩ := entry
    by_cases hj : j = id
    · rw [List.filter_cons_of_neg (by simpa using hj), ih]
      split
      · rfl
      · next hi => rw [List.lookup_cons, beq_false_of_ne (hj ▸ hi)]
    · rw [List.filter_cons_of_pos (by simpa using hj), List.lookup_cons, List.lookup_cons, ih]
      by_cases hi : i = j
      · simp [hi, hj]
      · rw [beq_false_of_ne hi]

namespace Book
variable {b b' c : Book} {own : Option Nat} {id : Nat}

/-- A listener has a number that was given out, without a receiver unless it fills one. -/
def Knows (b : Book) (l : Nat × Listener) : Prop :=
  l.1 < b.hub.roster.next ∧ ∀ f, l.2 = .reacts f → .opened l.1 ∉ b.journal

/-- The hub is as the book has it. -/
structure Fits (b : Book) : Prop where
  numbered : subscriptions b.journal = List.range b.hub.roster.next
  ascending : b.hub.roster.ids.Pairwise (· < ·)
  subscribed (id : Nat) : id ∈ b.hub.roster.ids ↔ Subscribed b.journal id
  refers : ∀ m ∈ b.journal, m.Refers b.journal b.hub.roster.next
  knows : ∀ l ∈ b.hub.roster.entries, b.Knows l
  receives (id : Nat) : Receives b.journal id (b.hub.queues.lookup id)

/-- From the first book to the second nothing was said about emits that had begun before, `own`
excepted, and all that have begun since are settled. -/
structure Extends (own : Option Nat) (b b' : Book) : Prop where
  journal : b.journal <+: b'.journal
  next : b.hub.roster.next ≤ b'.hub.roster.next
  opened : ∀ id < b.hub.roster.next, .opened id ∈ b'.journal → .opened id ∈ b.journal
  framed : ∀ e < b.journal.length, own ≠ some e →
    callsOf e b'.journal = callsOf e b.journal ∧ endsOf e b'.journal = endsOf e b.journal
  settled : ∀ e payload, b.journal.length ≤ e → b'.journal[e]? = some (.begun payload) →
    Settles b'.journal e payload

namespace Extends

theorem refl (own : Option Nat) (b : Book) : Extends own b b where
  journal := List.prefix_rfl
  next := Nat.le_refl _
  opened _ _ h := h
  framed _ _ _ := ⟨rfl, rfl⟩
  settled e payload he hget := by
    have := (List.getElem?_eq_some_iff.mp hget).1
    omega

theorem trans (h : Extends own b b') (h' : Extends own b' c)
    (hown : ∀ e, own = some e → e < b.journal.length) : Extends own b c where
  journal := h.journal.trans h'.journal
  next := h.next.trans h'.next
  opened id hid ho := h.opened id hid (h'.opened id (hid.trans_le h.next) ho)
  framed e he hne := by
    obtain ⟨hcalls, hends⟩ := h.framed e he hne
    obtain ⟨hcalls', hends'⟩ := h'.framed e (he.trans_le h.journal.length_le) hne
    exact ⟨hcalls'.trans hcalls, hends'.trans hends⟩
  settled e payload he hget := by
    by_cases hlt : e < b'.journal.length
    · have hget' : b'.journal[e]? = some (.begun payload) := by
        rw [List.prefix_iff_getElem?.mp h'.journal e hlt] at hget
        exact (List.getElem?_eq_getElem hlt).trans hget
      obtain ⟨hcalls, hends⟩ := h'.framed e hlt fun ho => (hown e ho).not_ge he
      exact (h.settled e payload he hget').grow h'.journal hlt hcalls hends
    · exact h'.settled e payload (Nat.le_of_not_lt hlt) hget

theorem knows (h : Extends own b b') {l : Nat × Listener} (hl : b.Knows l) : b'.Knows l :=
  ⟨hl.1.trans_le h.next, fun f hf ho => hl.2 f hf (h.opened _ hl.1 ho)⟩

theorem enter {m : Moment} {hub : Hub} (hbegun : ∀ payload, m ≠ .begun payload)
    (hown : ∀ e, m.emit? = some e → own = some e)
    (hopened : ∀ id < b.hub.roster.next, m ≠ .opened id)
    (hnext : b.hub.roster.next ≤ hub.roster.next) : Extends own b (b.enter m hub) where
  journal := List.prefix_append _ _
  next := hnext
  opened id hid ho := by
    rcases List.mem_append.mp ho with ho | ho
    · exact ho
    · exact absurd (List.mem_singleton.mp ho).symm (hopened id hid)
  framed e _ hne := by
    have hm : ∀ n ∈ [m], n.emit? ≠ some e := by simpa using fun he => hne (hown e he)
    simp [Book.enter, callsOf_eq_nil hm, endsOf_eq_nil hm]
  settled e payload he hget := by
    rw [Book.enter, List.getElem?_append_right he] at hget
    have hm := List.mem_of_getElem? hget
    exact absurd (List.mem_singleton.mp hm).symm (hbegun payload)

end Extends

namespace Fits

theorem begin : Fits {} where
  numbered := rfl
  ascending := List.Pairwise.nil
  subscribed id := by simp [Roster.ids, Subscribed]
  refers := by simp
  knows := by simp
  receives id := by simp [Receives]

theorem lt_next (hb : b.Fits) (h : id ∈ b.hub.roster.ids) : id < b.hub.roster.next := by
  have := ((hb.subscribed id).mp h).mem_subscriptions
  rwa [hb.numbered, List.mem_range] at this

/-- Nothing was said yet about a number that is still to come. -/
theorem not_concerns (hb : b.Fits) {m : Moment} (hm : m ∈ b.journal) :
    m.concerns b.hub.roster.next = false := by
  have := hb.refers m hm
  cases m <;> simp_all [Moment.Refers] <;> omega

/-- Nothing was said yet about an emit that is still to begin. -/
theorem emit?_ne (hb : b.Fits) {m : Moment} (hm : m ∈ b.journal) :
    m.emit? ≠ some b.journal.length := by
  intro he
  have hrefers := hb.refers m hm
  cases m with
  | called e id payload =>
    obtain rfl : e = b.journal.length := Option.some.inj he
    simp [Moment.Refers] at hrefers
  | ended e reached =>
    obtain rfl : e = b.journal.length := Option.some.inj he
    exact Nat.lt_irrefl _ hrefers
  | _ => cases he

theorem refers_append (hb : b.Fits) {m : Moment} {next : Nat} (hm : m.Refers b.journal next)
    (hnext : b.hub.roster.next ≤ next) :
    ∀ n ∈ b.journal ++ [m], n.Refers (b.journal ++ [m]) next := by
  intro n hn
  rcases List.mem_append.mp hn with hn | hn
  · exact (hb.refers n hn).mono (List.prefix_append _ _) hnext
  · obtain rfl := List.mem_singleton.mp hn
    exact hm.mono (List.prefix_append _ _) (Nat.le_refl _)

/-- A moment that leaves the roster alone. -/
theorem enter (hb : b.Fits) {m : Moment} {hub : Hub} (hroster : hub.roster = b.hub.roster)
    (hm : m.Refers b.journal b.hub.roster.next)
    (hstays : ∀ id, m ≠ .subscribed id ∧ m ≠ .unsubscribed id ∧ m ≠ .opened id ∧ m ≠ .cleared)
    (hreceives : ∀ id, Receives (b.journal ++ [m]) id (hub.queues.lookup id)) :
    (b.enter m hub).Fits := by
  have hnone : subscriptions [m] = [] := by
    rw [List.eq_nil_iff_forall_not_mem]
    intro id hid
    exact (hstays id).1 (List.mem_singleton.mp (mem_subscriptions_iff.mp hid)).symm
  refine ⟨?_, ?_, fun id => ?_, ?_, fun l hl => ?_, hreceives⟩
  · simpa [Book.enter, hnone, hroster] using hb.numbered
  · simpa [Book.enter, hroster] using hb.ascending
  · obtain ⟨hsub, hunsub, -, hclear⟩ := hstays id
    simpa [Book.enter, hroster, subscribed_append_singleton, hsub, hunsub, hclear]
      using hb.subscribed id
  · simpa [Book.enter, hroster] using hb.refers_append hm (Nat.le_refl _)
  · have := hb.knows l (by simpa [Book.enter, hroster] using hl)
    simpa [Book.Knows, Book.enter, hroster, (hstays l.1).2.2.1.symm] using this

/-- Somebody joins, with a number that is new. -/
theorem join (hb : b.Fits) (l : Listener) :
    (b.enter (.subscribed b.hub.roster.next)
      { b.hub with roster := (b.hub.roster.subscribe l).2 }).Fits where
  numbered := by
    simp [Book.enter, Roster.subscribe, hb.numbered, List.range_succ]
  ascending := by
    simp only [Book.enter, Roster.subscribe, Roster.ids, List.map_append, List.map_cons,
      List.map_nil, List.pairwise_append, List.mem_singleton, forall_eq]
    exact ⟨hb.ascending, List.pairwise_singleton .., fun id => hb.lt_next⟩
  subscribed id := by
    simp [Book.enter, Roster.subscribe, Roster.ids, subscribed_append_singleton,
      ← hb.subscribed id, eq_comm, or_comm]
  refers := hb.refers_append trivial (Nat.le_succ _)
  knows l' hl' := by
    rcases List.mem_append.mp hl' with hold | hnew
    · obtain ⟨hlt, hopened⟩ := hb.knows l' hold
      exact ⟨Nat.lt_succ_of_lt hlt, by simpa [Book.enter] using hopened⟩
    · obtain rfl := List.mem_singleton.mp hnew
      refine ⟨Nat.lt_succ_self _, fun f _ ho => ?_⟩
      have := hb.not_concerns (m := .opened b.hub.roster.next) (by simpa [Book.enter] using ho)
      simp at this
  receives id := (hb.receives id).append rfl

theorem subscribe (hb : b.Fits) (listener : Nat → String → Reaction) :
    (b.subscribe listener).2.Fits :=
  hb.join _

theorem channel (hb : b.Fits) : b.channel.2.Fits where
  numbered := (subscriptions_append.trans (List.append_nil _)).trans (hb.join .queues).numbered
  ascending := (hb.join .queues).ascending
  subscribed id := ((hb.join .queues).subscribed id).trans
    (subscribed_append_singleton.trans (by simp [Book.enter, Roster.subscribe])).symm
  refers := (hb.join .queues).refers_append (Nat.lt_succ_self b.hub.roster.next) (Nat.le_refl _)
  knows l hl := by
    obtain ⟨hlt, hopened⟩ := (hb.join .queues).knows l hl
    refine ⟨hlt, fun f hf ho => ?_⟩
    rcases List.mem_append.mp ho with ho | ho
    · exact hopened f hf ho
    · have hl' : l.1 = b.hub.roster.next := by simpa using ho
      rcases List.mem_append.mp hl with hold | hnew
      · exact (hb.knows l hold).1.ne hl'
      · obtain rfl := List.mem_singleton.mp hnew
        cases hf
  receives id := by
    -- Nothing in the book is about a number that has not been given out yet.
    have hfresh := fun m hm => hb.not_concerns (m := m) hm
    have hnone : b.hub.queues.lookup b.hub.roster.next = none := by
      cases hq : b.hub.queues.lookup b.hub.roster.next with
      | none => rfl
      | some q =>
        have hopened := hb.receives b.hub.roster.next
        rw [hq] at hopened
        simpa [Moment.concerns] using hfresh _ hopened.1
    show Receives ((b.journal ++ [.subscribed _]) ++ [.opened _]) id
      (List.lookup id (b.hub.queues ++ [(b.hub.roster.next, [])]))
    rw [List.lookup_append]
    by_cases hid : id = b.hub.roster.next
    · subst hid
      have hdropped : .dropped b.hub.roster.next ∉ b.journal := fun hd => by
        simpa [Moment.concerns] using hfresh _ hd
      have hreceived : receivedBy b.hub.roster.next
          [.subscribed b.hub.roster.next, .opened b.hub.roster.next] = [] := rfl
      have hdelivered : deliveries b.hub.roster.next
          [.subscribed b.hub.roster.next, .opened b.hub.roster.next] = [] := rfl
      simp [hnone, Receives, hdropped, receivedBy_eq_nil hfresh, deliveries_eq_nil hfresh,
        hreceived, hdelivered]
    · have hother : List.lookup id [(b.hub.roster.next, ([] : List String))] = none := by
        rw [List.lookup_cons, beq_false_of_ne hid, List.lookup_nil]
      rw [hother, Option.or_none]
      exact ((hb.receives id).append rfl).append (decide_eq_false (Ne.symm hid))

theorem unsubscribe (hb : b.Fits) (id : Nat) : (b.unsubscribe id).2.Fits where
  numbered := (subscriptions_append.trans (List.append_nil _)).trans hb.numbered
  ascending := hb.ascending.sublist (List.filter_sublist.map _)
  subscribed i := by
    refine Iff.trans ?_ subscribed_append_singleton.symm
    rw [← hb.subscribed i]
    simp [Book.unsubscribe, Book.enter, Hub.unsubscribe, Roster.unsubscribe, Roster.ids,
      @eq_comm _ id i]
  refers := hb.refers_append trivial (Nat.le_refl _)
  knows l hl := by
    obtain ⟨hlt, hopened⟩ := hb.knows l (List.mem_filter.mp hl).1
    exact ⟨hlt, by simpa [Book.unsubscribe, Book.enter] using hopened⟩
  receives i := (hb.receives i).append rfl

theorem clear (hb : b.Fits) : b.clear.Fits where
  numbered := (subscriptions_append.trans (List.append_nil _)).trans hb.numbered
  ascending := List.Pairwise.nil
  subscribed i := by
    simp [Book.clear, Book.enter, Hub.clear, Roster.clear, Roster.ids, subscribed_append_singleton]
  refers := hb.refers_append trivial (Nat.le_refl _)
  knows l hl := by simp [Book.clear, Book.enter, Hub.clear, Roster.clear] at hl
  receives i := (hb.receives i).append rfl

/-- A listener without a receiver is called. -/
theorem called (hb : b.Fits) {emit id : Nat} {payload : String} {f : String → Reaction}
    (hbegun : b.journal[emit]? = some (.begun payload)) (hl : b.Knows (id, .reacts f)) :
    (b.enter (.called emit id payload) b.hub).Fits := by
  refine hb.enter rfl ⟨hbegun, hl.1⟩ (by simp) fun i => ?_
  by_cases hi : id = i
  · subst hi
    have hopened : .opened id ∉ b.journal := hl.2 f rfl
    cases hq : b.hub.queues.lookup id with
    | none => simp [Receives, hopened]
    | some q =>
      have hreceives := hb.receives id
      rw [hq] at hreceives
      exact absurd hreceives.1 hopened
  · exact (hb.receives i).append (decide_eq_false hi)

/-- A listener that fills a queue is called. -/
theorem enqueue (hb : b.Fits) {emit id : Nat} {payload : String}
    (hbegun : b.journal[emit]? = some (.begun payload)) (hl : b.Knows (id, .queues)) :
    (b.enter (.called emit id payload) (b.hub.enqueue id payload)).Fits := by
  refine hb.enter rfl ⟨hbegun, hl.1⟩ (by simp) fun i => ?_
  have hreceives := hb.receives i
  rw [Hub.enqueue, lookup_change _ (· ++ [payload])]
  by_cases hi : i = id
  · subst hi
    have hreceived : receivedBy i [.called emit i payload] = [] := rfl
    have hdelivered : deliveries i [.called emit i payload] = [(emit, payload)] := by
      simp [deliveries]
    cases hq : b.hub.queues.lookup i with
    | none => simpa [hq, Receives] using hreceives
    | some q =>
      obtain ⟨hopened, hdropped, heq⟩ := by simpa only [hq, Receives] using hreceives
      simp [Receives, hopened, hdropped, hreceived, hdelivered, ← heq]
  · rw [if_neg hi]
    exact hreceives.append (decide_eq_false (Ne.symm hi))

theorem receive (hb : b.Fits) (id : Nat) : (b.receive id).2.Fits := by
  have hreceives := hb.receives id
  match hq : b.hub.queues.lookup id with
  | none => simpa [Book.receive, Hub.receive, hq] using hb
  | some [] =>
    cases hhas : b.hub.roster.has id <;> simpa [Book.receive, Hub.receive, hq, hhas] using hb
  | some (payload :: rest) =>
    obtain ⟨hopened, hdropped, heq⟩ := by simpa only [hq, Receives] using hreceives
    have hreceived : receivedBy id [.received id payload] = [payload] := by
      simp [receivedBy]
    have hdelivered : deliveries id [.received id payload] = [] := rfl
    simp only [Book.receive, Hub.receive, hq]
    have hlt : id < b.hub.roster.next := hb.refers _ hopened
    refine hb.enter rfl hlt (by simp) fun i => ?_
    rw [lookup_change _ fun _ => rest]
    by_cases hi : i = id
    · subst hi
      simp [hq, Receives, hopened, hdropped, hreceived, hdelivered, ← heq]
    · rw [if_neg hi]
      exact (hb.receives i).append (decide_eq_false (Ne.symm hi))

theorem dropReceiver (hb : b.Fits) (id : Nat) : (b.dropReceiver id).2.Fits := by
  have hreceives := hb.receives id
  cases hq : b.hub.queues.lookup id with
  | none =>
    simp only [Book.dropReceiver, Hub.dropReceiver, hq, Option.isSome_none, Bool.false_eq_true,
      if_false]
    refine ⟨hb.numbered, hb.ascending, hb.subscribed, hb.refers, hb.knows, fun i => ?_⟩
    rw [lookup_drop]
    split
    · next hi => rwa [hq, ← hi] at hreceives
    · exact hb.receives i
  | some q =>
    obtain ⟨hopened, -, -⟩ := by simpa only [hq, Receives] using hreceives
    have hlt : id < b.hub.roster.next := hb.refers _ hopened
    simp only [Book.dropReceiver, Hub.dropReceiver, hq, Option.isSome_some]
    refine hb.enter rfl hlt (by simp) fun i => ?_
    rw [lookup_drop]
    split
    · next hi => simp [Receives, hi]
    · next hi => exact (hb.receives i).append (decide_eq_false (Ne.symm hi))

theorem emit_begins (hb : b.Fits) (payload : String) : (b.enter (.begun payload) b.hub).Fits :=
  hb.enter rfl trivial (by simp) fun i => (hb.receives i).append rfl

theorem emit_ends (hb : b.Fits) {emit : Nat} (reached : Nat) (hemit : emit < b.journal.length) :
    (b.enter (.ended emit reached) b.hub).Fits :=
  hb.enter rfl hemit (by simp) fun i => (hb.receives i).append rfl

end Fits

namespace Extends

theorem subscribe (b : Book) (listener : Nat → String → Reaction) :
    Extends own b (b.subscribe listener).2 :=
  .enter (by simp) (by simp) (by simp) (Nat.le_succ _)

theorem channel (b : Book) : Extends none b b.channel.2 := by
  have hjoined : Extends none b (b.enter (.subscribed b.hub.roster.next) b.hub) :=
    .enter (by simp) (by simp) (by simp) (Nat.le_refl _)
  have hfresh : ∀ id < b.hub.roster.next, Moment.opened b.hub.roster.next ≠ .opened id :=
    fun id hid => by simpa using hid.ne'
  exact hjoined.trans (.enter (by simp) (by simp) hfresh (Nat.le_succ _)) (by simp)

theorem unsubscribe (b : Book) (id : Nat) : Extends own b (b.unsubscribe id).2 :=
  .enter (by simp) (by simp) (by simp) (Nat.le_refl _)

theorem clear (b : Book) : Extends own b b.clear :=
  .enter (by simp) (by simp) (by simp) (Nat.le_refl _)

theorem receive (b : Book) (id : Nat) : Extends own b (b.receive id).2 := by
  match hq : b.hub.queues.lookup id with
  | none => simpa [Book.receive, Hub.receive, hq] using .refl own b
  | some [] =>
    cases hhas : b.hub.roster.has id <;>
      simpa [Book.receive, Hub.receive, hq, hhas] using .refl own b
  | some (payload :: rest) =>
    simp only [Book.receive, Hub.receive, hq]
    exact .enter (by simp) (by simp) (by simp) (Nat.le_refl _)

/-- What has no moment of its own is not in the book. -/
theorem of_eq (hjournal : b'.journal = b.journal) (hnext : b.hub.roster.next ≤ b'.hub.roster.next) :
    Extends own b b' := by
  have h := refl own b
  exact ⟨hjournal ▸ h.journal, hnext, fun id hid ho => h.opened id hid (hjournal ▸ ho),
    fun e he hne => hjournal ▸ h.framed e he hne, fun e p he hget => by
      rw [hjournal] at hget ⊢
      exact h.settled e p he hget⟩

theorem dropReceiver (b : Book) (id : Nat) : Extends own b (b.dropReceiver id).2 := by
  cases hwas : (b.hub.dropReceiver id).1 with
  | false =>
    simp only [Book.dropReceiver, hwas]
    exact of_eq rfl (Nat.le_refl _)
  | true =>
    simp only [Book.dropReceiver, hwas]
    exact .enter (by simp) (by simp) (by simp) (Nat.le_refl _)

theorem mono (h : Extends none b b') : Extends own b b' :=
  { h with framed := fun e he _ => h.framed e he (by simp) }

end Extends

/-- What an emit does to books that fit. -/
def Sound (emit : String → Book → Option (Nat × Book)) : Prop :=
  ∀ {payload : String} {b b' : Book} {reached : Nat}, b.Fits →
    emit payload b = some (reached, b') → b'.Fits ∧ Extends none b b'

section Emit
variable {emit : String → Book → Option (Nat × Book)} {payload : String}

theorem react_spec (hemit : Sound emit) {r : Reaction} (hb : b.Fits)
    (h : b.react emit r = some b') : b'.Fits ∧ Extends none b b' := by
  -- Node by node the book fits and is only added to; what an emit calls on the way does the same.
  induction r generalizing b with
  | done =>
    obtain rfl : b = b' := Option.some.inj h
    exact ⟨hb, .refl _ b⟩
  | note n next ih =>
    obtain ⟨hb', hext⟩ := ih (b := { b with hub := b.hub.addNote n })
      ⟨hb.numbered, hb.ascending, hb.subscribed, hb.refers, hb.knows, hb.receives⟩ h
    exact ⟨hb', hext.journal, hext.next, hext.opened, hext.framed, hext.settled⟩
  | lookBack next ih => exact ih _ hb h
  | subscribe listener next _ ih =>
    obtain ⟨hb', hext⟩ := ih _ (hb.subscribe listener) h
    exact ⟨hb', (Extends.subscribe b listener).trans hext (by simp)⟩
  | channel next ih =>
    obtain ⟨hb', hext⟩ := ih _ hb.channel h
    exact ⟨hb', (Extends.channel b).trans hext (by simp)⟩
  | unsubscribe id next ih =>
    obtain ⟨hb', hext⟩ := ih _ (hb.unsubscribe id) h
    exact ⟨hb', (Extends.unsubscribe b id).trans hext (by simp)⟩
  | known id next ih => exact ih _ hb h
  | clear next ih =>
    obtain ⟨hb', hext⟩ := ih hb.clear h
    exact ⟨hb', (Extends.clear b).trans hext (by simp)⟩
  | emit payload next ih =>
    rw [react] at h
    split at h
    · next reached c hc =>
      obtain ⟨hfits, hext⟩ := hemit hb hc
      obtain ⟨hb', hext'⟩ := ih reached hfits h
      exact ⟨hb', hext.trans hext' (by simp)⟩
    · cases h

theorem call_spec (hemit : Sound emit) {e : Nat} {l : Nat × Listener} (hb : b.Fits)
    (hbegun : b.journal[e]? = some (.begun payload)) (hl : b.Knows l)
    (h : b.call emit e payload l = some b') :
    b'.Fits ∧ Extends (some e) b b' ∧
      callsOf e b'.journal = callsOf e b.journal ++ [(l.1, payload)] ∧
      endsOf e b'.journal = endsOf e b.journal := by
  have helt : e < b.journal.length := (List.getElem?_eq_some_iff.mp hbegun).1
  have hcalls (id : Nat) : callsOf e [.called e id payload] = [(id, payload)] := by
    simp [callsOf]
  have hends (id : Nat) : endsOf e [.called e id payload] = [] := rfl
  have hentered (id : Nat) (hub : Hub) (hnext : b.hub.roster.next ≤ hub.roster.next) :
      Extends (some e) b (b.enter (.called e id payload) hub) :=
    .enter (by simp) (by simp) (by simp) hnext
  obtain ⟨id, f | -⟩ := l
  · obtain ⟨hb', hext⟩ := react_spec hemit (hb.called hbegun hl) h
    have hlt : e < (b.enter (.called e id payload) b.hub).journal.length := by
      simp only [Book.enter, List.length_append]
      omega
    obtain ⟨hcalls', hends'⟩ := hext.framed e hlt (by simp)
    refine ⟨hb', (hentered id b.hub (Nat.le_refl _)).trans hext.mono (by simpa using helt), ?_, ?_⟩
    · rw [hcalls', Book.enter, callsOf_append, hcalls]
    · rw [hends', Book.enter, endsOf_append, hends, List.append_nil]
  · obtain rfl := Option.some.inj h
    refine ⟨hb.enqueue hbegun hl, hentered id _ (Nat.le_refl _), ?_, ?_⟩
    · rw [Book.enter, callsOf_append, hcalls]
    · rw [Book.enter, endsOf_append, hends, List.append_nil]

theorem calls_spec (hemit : Sound emit) {e : Nat} {ls : List (Nat × Listener)} (hb : b.Fits)
    (hbegun : b.journal[e]? = some (.begun payload)) (hls : ∀ l ∈ ls, b.Knows l)
    (h : ls.foldlM (call emit e payload) b = some b') :
    b'.Fits ∧ Extends (some e) b b' ∧
      callsOf e b'.journal = callsOf e b.journal ++ ls.map (·.1, payload) ∧
      endsOf e b'.journal = endsOf e b.journal := by
  have helt {b : Book} (h : b.journal[e]? = some (.begun payload)) : e < b.journal.length :=
    (List.getElem?_eq_some_iff.mp h).1
  induction ls generalizing b with
  | nil =>
    obtain rfl : b = b' := Option.some.inj h
    exact ⟨hb, .refl _ b, by simp, rfl⟩
  | cons l ls ih =>
    rw [List.foldlM_cons] at h
    obtain ⟨c, hc, h⟩ := Option.bind_eq_some_iff.mp h
    obtain ⟨hfits, hext, hcalls, hends⟩ := call_spec hemit hb hbegun (hls l (by simp)) hc
    have hbegun' : c.journal[e]? = some (.begun payload) := by
      obtain ⟨rest, hrest⟩ := hext.journal
      rw [← hrest, List.getElem?_append_left (helt hbegun), hbegun]
    obtain ⟨hb', hext', hcalls', hends'⟩ :=
      ih hfits hbegun' (fun l hl => hext.knows (hls l (List.mem_cons_of_mem _ hl))) h
    refine ⟨hb', hext.trans hext' (by simpa using helt hbegun), ?_, hends'.trans hends⟩
    rw [hcalls', hcalls, List.map_cons, List.append_assoc, List.singleton_append]

end Emit

/-- An emit that has called everybody returns, and is settled. -/
theorem Extends.close (hb : b.Fits) {payload : String}
    (h : Extends (some b.journal.length) (b.enter (.begun payload) b.hub) c)
    (hcalls : callsOf b.journal.length c.journal = b.hub.roster.ids.map (·, payload))
    (hends : endsOf b.journal.length c.journal = []) :
    Extends none b (c.enter (.ended b.journal.length b.hub.roster.count) c.hub) := by
  have hclosed : Extends (some b.journal.length) (b.enter (.begun payload) b.hub)
      (c.enter (.ended b.journal.length b.hub.roster.count) c.hub) :=
    h.trans (.enter (by simp) (by simp) (by simp) (Nat.le_refl _))
      (by simp [Book.enter])
  have hgrows := (List.prefix_append b.journal [.begun payload]).trans hclosed.journal
  refine ⟨hgrows, hclosed.next, fun id hid ho => ?_, fun e he _ => ?_, fun e p he hget => ?_⟩
  · simpa [Book.enter] using hclosed.opened id hid ho
  · obtain ⟨hcalls', hends'⟩ := hclosed.framed e
      (he.trans (by simp [Book.enter])) (by simpa using he.ne')
    exact ⟨hcalls'.trans (callsOf_append.trans (List.append_nil _)),
      hends'.trans (endsOf_append.trans (List.append_nil _))⟩
  rcases he.eq_or_lt with rfl | hlater
  · -- The emit itself: it began with those who were subscribed in `b`.
    obtain ⟨rest, hrest⟩ := hclosed.journal
    have htake : (c.enter (.ended b.journal.length b.hub.roster.count) c.hub).journal.take
        b.journal.length = b.journal := by
      rw [← hrest, Book.enter, List.append_assoc, List.take_left]
    have hbegun : p = payload := by
      rw [← hrest, Book.enter, List.append_assoc, List.getElem?_append_right (Nat.le_refl _),
        Nat.sub_self] at hget
      simpa using hget.symm
    subst hbegun
    refine ⟨b.hub.roster.ids, hb.ascending, fun id => ?_, ?_, ?_⟩
    · rw [htake, hb.subscribed id]
    · exact (callsOf_append.trans (List.append_nil _)).trans hcalls
    · rw [Book.enter, endsOf_append, hends]
      simp [endsOf, Roster.count, Roster.ids]
  · exact hclosed.settled e p (by simpa [Book.enter] using Nat.succ_le_of_lt hlater) hget

/-- Between its first moment and its last, an emit calls everybody who was there. -/
theorem exists_called {depth reached : Nat} {payload : String} (hsound : Sound (emit? depth))
    (hb : b.Fits) (h : b.emit? (depth + 1) payload = some (reached, b')) :
    ∃ c : Book, c.Fits ∧ Extends (some b.journal.length) (b.enter (.begun payload) b.hub) c ∧
      callsOf b.journal.length c.journal = b.hub.roster.ids.map (·, payload) ∧
      endsOf b.journal.length c.journal = [] ∧ reached = b.hub.roster.count ∧
      b' = c.enter (.ended b.journal.length b.hub.roster.count) c.hub := by
  obtain ⟨c, hc, hanswer⟩ := Option.map_eq_some_iff.mp h
  obtain ⟨rfl, rfl⟩ := Prod.mk.inj hanswer
  have hbegun : (b.enter (.begun payload) b.hub).journal[b.journal.length]? =
      some (.begun payload) := by
    simp [Book.enter]
  have hknows : ∀ l ∈ b.hub.roster.entries, (b.enter (.begun payload) b.hub).Knows l :=
    fun l hl => by simpa [Book.enter, Book.Knows] using hb.knows l hl
  obtain ⟨hfits, hext, hcalls, hends⟩ :=
    calls_spec hsound (hb.emit_begins payload) hbegun hknows hc
  refine ⟨c, hfits, hext, ?_, ?_, rfl, rfl⟩
  · rw [hcalls, Book.enter, callsOf_append, callsOf_eq_nil fun m hm => hb.emit?_ne hm, Roster.ids,
      List.map_map]
    rfl
  · rw [hends, Book.enter, endsOf_append, endsOf_eq_nil fun m hm => hb.emit?_ne hm]
    rfl

theorem emit?_spec (depth : Nat) : Sound (emit? depth) := by
  induction depth with
  | zero => exact fun _ h => nomatch h
  | succ depth ih =>
    intro payload b b' reached hb h
    obtain ⟨c, hfits, hext, hcalls, hends, -, rfl⟩ := exists_called ih hb h
    have hlt : b.journal.length < c.journal.length :=
      Nat.lt_of_lt_of_le (by simp [Book.enter]) hext.journal.length_le
    exact ⟨hfits.emit_ends _ hlt, hext.close hb hcalls hends⟩

/-- The book fits, and all its emits are settled. -/
theorem Kept.spec (h : b.Kept) : b.Fits ∧ Extends none {} b := by
  have htrans {b b' : Book} (h : Extends none {} b) (h' : Extends none b b') : Extends none {} b' :=
    h.trans h' (by simp)
  induction h with
  | begin => exact ⟨.begin, .refl none _⟩
  | subscribe _ listener ih => exact ⟨ih.1.subscribe listener, htrans ih.2 (.subscribe _ listener)⟩
  | channel _ ih => exact ⟨ih.1.channel, htrans ih.2 (.channel _)⟩
  | unsubscribe _ id ih => exact ⟨ih.1.unsubscribe id, htrans ih.2 (.unsubscribe _ id)⟩
  | clear _ ih => exact ⟨ih.1.clear, htrans ih.2 (.clear _)⟩
  | emit _ he ih =>
    obtain ⟨hfits, hext⟩ := emit?_spec _ ih.1 he
    exact ⟨hfits, htrans ih.2 hext⟩
  | receive _ id ih => exact ⟨ih.1.receive id, htrans ih.2 (.receive _ id)⟩
  | dropReceiver _ id ih => exact ⟨ih.1.dropReceiver id, htrans ih.2 (.dropReceiver _ id)⟩
  | notes _ notes ih =>
    obtain ⟨hfits, hext⟩ := ih
    exact ⟨⟨hfits.numbered, hfits.ascending, hfits.subscribed, hfits.refers, hfits.knows,
      hfits.receives⟩, htrans hext (.of_eq rfl (Nat.le_refl _))⟩

theorem Kept.settles (h : b.Kept) {e : Nat} {payload : String}
    (hbegun : b.journal[e]? = some (.begun payload)) : Settles b.journal e payload :=
  h.spec.2.settled e payload (Nat.zero_le e) hbegun

end Book
end TextReveal.Hub
