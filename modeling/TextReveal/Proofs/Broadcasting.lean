import TextReveal.Proofs.Bookkeeping
/-!
Emits as broadcasts. Listeners may do with the hub what they like while they are called, and emit
again; each emit still reaches those who were subscribed when it began.
-/
namespace TextReveal.Hub

/-- Answers of an emit stay when it may go deeper. -/
def Below (emit emit' : String → Hub → Option (Nat × Hub)) : Prop :=
  ∀ {payload : String} {h : Hub} {answer : Nat × Hub},
    emit payload h = some answer → emit' payload h = some answer

section Below
variable {emit emit' : String → Hub → Option (Nat × Hub)}

theorem react_mono (hbelow : Below emit emit') {r : Reaction} {h h' : Hub}
    (hr : react emit r h = some h') : react emit' r h = some h' := by
  induction r generalizing h with
  | done => exact hr
  | note n next ih => exact ih hr
  | lookBack next ih => exact ih _ hr
  | subscribe listener next _ ih => exact ih _ hr
  | channel next ih => exact ih _ hr
  | unsubscribe id next ih => exact ih _ hr
  | known id next ih => exact ih _ hr
  | clear next ih => exact ih hr
  | emit payload next ih =>
    rw [react] at hr ⊢
    split at hr
    · next reached mid hmid =>
      rw [hbelow hmid]
      exact ih reached hr
    · cases hr

theorem deliver_mono (hbelow : Below emit emit') {payload : String} {l : Nat × Listener}
    {h h' : Hub} (hl : deliver emit payload h l = some h') :
    deliver emit' payload h l = some h' := by
  obtain ⟨id, f | -⟩ := l
  · exact react_mono hbelow hl
  · exact hl

end Below

theorem below_succ (depth : Nat) : Below (emit? depth) (emit? (depth + 1)) := by
  induction depth with
  | zero => exact fun h => nomatch h
  | succ depth ih =>
    intro payload h answer hanswer
    obtain ⟨h', hh', rfl⟩ := Option.map_eq_some_iff.mp hanswer
    have hfold (ls : List (Nat × Listener)) (c : Hub)
        (hc : ls.foldlM (deliver (emit? depth) payload) c = some h') :
        ls.foldlM (deliver (emit? (depth + 1)) payload) c = some h' := by
      induction ls generalizing c with
      | nil => exact hc
      | cons l ls ihls =>
        rw [List.foldlM_cons] at hc ⊢
        obtain ⟨mid, hmid, hrest⟩ := Option.bind_eq_some_iff.mp hc
        exact Option.bind_eq_some_iff.mpr ⟨mid, deliver_mono ih hmid, ihls mid hrest⟩
    rw [emit?, hfold _ _ hh']
    rfl

theorem emit?_mono {depth deeper : Nat} (hdepth : depth ≤ deeper) :
    Below (emit? depth) (emit? deeper) := by
  induction hdepth with
  | refl => exact fun h => h
  | step _ ih => exact fun h => below_succ _ (ih h)

namespace Book

/-- An emit begins with its payload and ends with what it returns. -/
theorem journal_emit? {b b' : Book} (hb : b.Fits) {depth reached : Nat} {payload : String}
    (h : b.emit? depth payload = some (reached, b')) :
    ∃ during, b'.journal =
      b.journal ++ .begun payload :: during ++ [.ended b.journal.length reached] := by
  obtain _ | depth := depth
  · cases h
  · obtain ⟨c, -, hext, -, -, rfl, rfl⟩ := exists_called (emit?_spec depth) hb h
    obtain ⟨during, hduring⟩ := hext.journal
    refine ⟨during, ?_⟩
    rw [Book.enter, ← hduring, Book.enter, List.append_assoc b.journal, List.singleton_append]

/-- Whatever the listeners do with the hub, an emit calls those who are subscribed when it begins,
each once, with its payload and by number, and returns how many they are; and so do all emits that
are begun meanwhile. -/
theorem Kept.broadcasts {b : Book} (kept : b.Kept) {depth reached : Nat} {payload : String}
    {hub : Hub} (h : b.hub.emit? depth payload = some (reached, hub)) :
    (∀ deeper ≥ depth, b.hub.emit? deeper payload = some (reached, hub)) ∧
    ∃ journal during,
      journal = b.journal ++ .begun payload :: during ++ [.ended b.journal.length reached] ∧
      b.emit? depth payload = some (reached, ⟨hub, journal⟩) ∧ Kept ⟨hub, journal⟩ ∧
      ∀ emit payload, journal[emit]? = some (.begun payload) →
        ∃ ids : List Nat, ids.Pairwise (· < ·) ∧
          (∀ id, id ∈ ids ↔ Subscribed (journal.take emit) id) ∧
          callsOf emit journal = ids.map (·, payload) ∧ endsOf emit journal = [ids.length] := by
  have hbook := hub_emit? depth payload b
  rw [h] at hbook
  obtain ⟨⟨reached', ⟨hub', journal⟩⟩, hemit, hanswer⟩ := Option.map_eq_some_iff.mp hbook
  obtain ⟨rfl, rfl⟩ := Prod.mk.inj hanswer
  obtain ⟨during, hjournal⟩ := journal_emit? kept.spec.1 hemit
  have hkept := kept.emit hemit
  exact ⟨fun deeper hdeeper => emit?_mono hdeeper h, journal, during, hjournal, hemit, hkept,
    fun emit payload hbegun => hkept.settles hbegun⟩

/-- The first listener leaves and emits again, and the second one hears the inner emit first. -/
theorem broadcasts_of_echo :
    ∃ (b : Book) (hub : Hub) (journal : List Moment), b.Kept ∧
      b.hub.emit? 2 "a" = some (2, hub) ∧ b.emit? 2 "a" = some (2, ⟨hub, journal⟩) ∧
      journal = [.subscribed 0, .subscribed 1, .begun "a", .called 2 0 "a", .unsubscribed 0,
        .begun "b", .called 5 1 "b", .ended 5 1, .called 2 1 "a", .ended 2 2] ∧
      ∀ emit payload, journal[emit]? = some (.begun payload) → Settles journal emit payload := by
  let echo : Nat → String → Reaction := fun self _ =>
    .unsubscribe self fun _ => .emit "b" fun _ => .done
  let b : Book := ((Book.subscribe {} echo).2.subscribe fun _ _ => .done).2
  have hkept : b.Kept := (Kept.begin.subscribe echo).subscribe _
  have hrun : (b.emit? 2 "a").map (·.map id journal) = some (2,
      [.subscribed 0, .subscribed 1, .begun "a", .called 2 0 "a", .unsubscribed 0, .begun "b",
        .called 5 1 "b", .ended 5 1, .called 2 1 "a", .ended 2 2]) := by
    decide
  obtain ⟨⟨reached, b'⟩, hemit, hanswer⟩ := Option.map_eq_some_iff.mp hrun
  obtain ⟨rfl, hjournal⟩ := Prod.mk.inj hanswer
  have hhub : b.hub.emit? 2 "a" = some (2, b'.hub) := by
    rw [← hub_emit? 2 "a" b, hemit]
    rfl
  obtain ⟨-, journal, during, -, hbook, -, hsettles⟩ := hkept.broadcasts hhub
  have hsame : b'.journal = journal :=
    congrArg (·.2.journal) (Option.some.inj (hemit.symm.trans hbook))
  exact ⟨b, _, journal, hkept, hhub, hbook, hsame ▸ hjournal, hsettles⟩

end Book
end TextReveal.Hub
