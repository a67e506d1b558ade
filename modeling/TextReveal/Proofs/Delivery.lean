import Mathlib.Data.List.Nodup
import TextReveal.Proofs.Bookkeeping
/-!
Membership and delivery over whole runs: who is subscribed, how many they are, and what receivers
get to read.
-/
namespace TextReveal.Hub

/-- The number of a listener as a word, counted from one. -/
def word (id : Nat) : UInt64 := .ofNat (id + 1)

theorem word_lt_word {i j : Nat} (hij : i < j) (hj : j < UInt64.size - 1) : word i < word j := by
  rw [UInt64.size] at hj
  rw [UInt64.lt_iff_toNat_lt, word, word, UInt64.toNat_ofNat', UInt64.toNat_ofNat',
    Nat.mod_eq_of_lt (by omega), Nat.mod_eq_of_lt (by omega)]
  omega

/-- A hub without its receivers. -/
def bare (h : Hub) : Hub := { h with queues := [] }

section Bare
variable {h h' : Hub}

theorem bare_eq_iff : h.bare = h'.bare ↔ h.roster = h'.roster ∧ h.notes = h'.notes := by
  simp [bare]

/-- An emit does not look at receivers. -/
def Blind (emit : String → Hub → Option (Nat × Hub)) : Prop :=
  ∀ ⦃payload : String⦄ ⦃h h' : Hub⦄, h.bare = h'.bare →
    (emit payload h).map (·.map id bare) = (emit payload h').map (·.map id bare)

variable {emit : String → Hub → Option (Nat × Hub)}

/-- Steps that agree without receivers can be followed by such. -/
theorem bind_bare {α β : Type} {seen : α → β} {x x' : Option α} {f f' : α → Option Hub}
    (hx : x.map seen = x'.map seen)
    (hf : ∀ a a', seen a = seen a' → (f a).map bare = (f' a').map bare) :
    (x.bind f).map bare = (x'.bind f').map bare := by
  cases x with
  | none =>
    obtain rfl := Option.map_eq_none_iff.mp hx.symm
    rfl
  | some a =>
    obtain ⟨a', rfl, ha⟩ := Option.map_eq_some_iff.mp hx.symm
    exact hf a a' ha.symm

theorem react_emit (payload : String) (next : Nat → Reaction) (h : Hub) :
    react emit (.emit payload next) h =
      (emit payload h).bind fun answer => react emit (next answer.1) answer.2 := by
  rw [react]
  cases emit payload h <;> rfl

theorem react_bare (hemit : Blind emit) (r : Reaction) (hbare : h.bare = h'.bare) :
    (react emit r h).map bare = (react emit r h').map bare := by
  -- Queues are written to, but nothing in a reaction reads them.
  induction r generalizing h h' with
  | done => exact congrArg some hbare
  | note n next ih =>
    obtain ⟨hroster, hnotes⟩ := bare_eq_iff.mp hbare
    exact ih (bare_eq_iff.mpr ⟨hroster, congrArg (· ++ [n]) hnotes⟩)
  | lookBack next ih =>
    rw [react, react, (bare_eq_iff.mp hbare).2]
    exact ih _ hbare
  | subscribe listener next _ ih =>
    obtain ⟨hroster, hnotes⟩ := bare_eq_iff.mp hbare
    simp only [react, Hub.subscribe, hroster]
    exact ih _ (bare_eq_iff.mpr ⟨rfl, hnotes⟩)
  | channel next ih =>
    obtain ⟨hroster, hnotes⟩ := bare_eq_iff.mp hbare
    simp only [react, Hub.channel, hroster]
    exact ih _ (bare_eq_iff.mpr ⟨rfl, hnotes⟩)
  | unsubscribe id next ih =>
    obtain ⟨hroster, hnotes⟩ := bare_eq_iff.mp hbare
    simp only [react, Hub.unsubscribe, hroster]
    exact ih _ (bare_eq_iff.mpr ⟨rfl, hnotes⟩)
  | known id next ih =>
    rw [react, react, knows, knows, (bare_eq_iff.mp hbare).1]
    exact ih _ hbare
  | clear next ih =>
    obtain ⟨hroster, hnotes⟩ := bare_eq_iff.mp hbare
    exact ih (bare_eq_iff.mpr ⟨congrArg Roster.clear hroster, hnotes⟩)
  | emit payload next ih =>
    rw [react_emit, react_emit]
    refine bind_bare (hemit hbare) fun answer answer' heq => ?_
    obtain ⟨hreached, hmid⟩ := Prod.mk.inj heq
    rw [show answer.1 = answer'.1 from hreached]
    exact ih _ hmid

theorem deliver_bare (hemit : Blind emit) (payload : String) (l : Nat × Listener)
    (hbare : h.bare = h'.bare) :
    (deliver emit payload h l).map bare = (deliver emit payload h' l).map bare := by
  obtain ⟨id, f | -⟩ := l
  · exact react_bare hemit (f payload) hbare
  · exact congrArg some (bare_eq_iff.mpr (bare_eq_iff.mp hbare))

theorem emit?_bare (depth : Nat) : Blind (emit? depth) := by
  induction depth with
  | zero => exact fun _ _ _ _ => rfl
  | succ depth ih =>
    intro payload h h' hbare
    have hfold (ls : List (Nat × Listener)) {c c' : Hub} (hc : c.bare = c'.bare) :
        (ls.foldlM (deliver (emit? depth) payload) c).map bare =
          (ls.foldlM (deliver (emit? depth) payload) c').map bare := by
      induction ls generalizing c c' with
      | nil => exact congrArg some hc
      | cons l ls ihls =>
        rw [List.foldlM_cons, List.foldlM_cons]
        exact bind_bare (deliver_bare ih payload l hc) fun _ _ => ihls
    have hcalled := congrArg (Option.map fun c => (h'.roster.count, c))
      (hfold h'.roster.entries hbare)
    rw [emit?, emit?, (bare_eq_iff.mp hbare).1, Option.map_map, Option.map_map]
    rwa [Option.map_map, Option.map_map] at hcalled

end Bare

theorem mem_deliveries_iff {js : List Moment} {e id : Nat} {payload : String} :
    (e, payload) ∈ deliveries id js ↔ .called e id payload ∈ js := by
  simp only [deliveries, List.mem_filterMap]
  constructor
  · rintro ⟨m, hm, hdelivery⟩
    cases m <;> simp_all
  · exact fun h => ⟨_, h, by simp⟩

theorem mem_callsOf_iff {js : List Moment} {e id : Nat} {payload : String} :
    (id, payload) ∈ callsOf e js ↔ .called e id payload ∈ js := by
  rw [← List.count_pos_iff, ← count_deliveries, List.count_pos_iff, mem_deliveries_iff]

namespace Book
variable {b : Book}

theorem Kept.called_iff (kept : b.Kept) {e id : Nat} {payload : String} :
    .called e id payload ∈ b.journal ↔
      b.journal[e]? = some (.begun payload) ∧ Subscribed (b.journal.take e) id := by
  constructor
  · intro hcalled
    have hbegun : b.journal[e]? = some (.begun payload) := (kept.spec.1.refers _ hcalled).1
    obtain ⟨ids, -, hids, hcalls, -⟩ := kept.settles hbegun
    rw [← mem_callsOf_iff, hcalls] at hcalled
    exact ⟨hbegun, (hids id).mp (by simpa using hcalled)⟩
  · rintro ⟨hbegun, hsubscribed⟩
    obtain ⟨ids, -, hids, hcalls, -⟩ := kept.settles hbegun
    rw [← mem_callsOf_iff, hcalls]
    simpa using (hids id).mpr hsubscribed

theorem Kept.nodup_deliveries (kept : b.Kept) (id : Nat) : (deliveries id b.journal).Nodup := by
  rw [List.nodup_iff_count_le_one]
  rintro ⟨e, payload⟩
  by_cases hcalled : .called e id payload ∈ b.journal
  · obtain ⟨ids, hsorted, -, hcalls, -⟩ := kept.settles (kept.called_iff.mp hcalled).1
    rw [count_deliveries, hcalls]
    exact List.nodup_iff_count_le_one.mp
      ((hsorted.imp Nat.ne_of_lt).map _ fun _ _ => mt fun heq => (Prod.mk.inj heq).1) _
  · rw [List.count_eq_zero_of_not_mem (mt mem_deliveries_iff.mp hcalled)]
    exact Nat.zero_le 1

/-- What a receiver answers next, after what it has yielded, against all it is to yield. -/
def Yields (yielded due : List String) (subscribed : Prop) : Option Receipt → Prop
  | some (.payload payload) => yielded ++ [payload] <+: due
  | some .empty => yielded = due ∧ subscribed
  | some .disconnected => yielded = due ∧ ¬subscribed
  | none => False

theorem Fits.yields (hb : b.Fits) {id : Nat} (hopened : .opened id ∈ b.journal)
    (hheld : .dropped id ∉ b.journal) :
    Yields (receivedBy id b.journal) ((deliveries id b.journal).map Prod.snd)
      (Subscribed b.journal id) (b.hub.receive id).1 := by
  have hreceives := hb.receives id
  have hhas : b.hub.roster.has id = true ↔ Subscribed b.journal id := by
    rw [← hb.subscribed id, Roster.has, Roster.ids]
    simp
  cases hq : b.hub.queues.lookup id with
  | none =>
    rw [hq] at hreceives
    exact absurd (hreceives hopened) hheld
  | some q =>
    rw [hq] at hreceives
    obtain ⟨-, -, hdue⟩ := hreceives
    obtain _ | ⟨payload, rest⟩ := q
    · rw [List.append_nil] at hdue
      by_cases hsubscribed : Subscribed b.journal id
      · simpa [Hub.receive, hq, hhas.mpr hsubscribed, Yields] using ⟨hdue, hsubscribed⟩
      · simpa [Hub.receive, hq, mt hhas.mp hsubscribed, Yields] using ⟨hdue, hsubscribed⟩
    · simp only [Hub.receive, hq, Yields, ← hdue]
      exact ⟨rest, by simp⟩

/-- At any time of any run, numbers have been given out once each and in order; those that are
subscribed are the ones that were neither removed nor cleared since, and they are counted; and a
receiver that is held yields, one after the other, the payloads of the emits that began while its
number was subscribed. Nobody notices that a receiver is dropped. -/
theorem Kept.delivers (kept : b.Kept) :
    (subscriptions b.journal).Pairwise (· < ·) ∧
    ((subscriptions b.journal).length < UInt64.size - 1 →
      ((subscriptions b.journal).map word).Pairwise (· < ·)) ∧
    (∀ id, (b.hub.unsubscribe id).1 = true ↔ Subscribed b.journal id) ∧
    (∃ ids : List Nat, ids.Pairwise (· < ·) ∧ (∀ id, id ∈ ids ↔ Subscribed b.journal id) ∧
      b.hub.count = ids.length) ∧
    (∀ id, .opened id ∈ b.journal → .dropped id ∉ b.journal →
      (deliveries id b.journal).Nodup ∧
      (∀ emit payload, (emit, payload) ∈ deliveries id b.journal ↔
        b.journal[emit]? = some (.begun payload) ∧ Subscribed (b.journal.take emit) id) ∧
      Yields (receivedBy id b.journal) ((deliveries id b.journal).map Prod.snd)
        (Subscribed b.journal id) (b.hub.receive id).1) ∧
    ∀ receiver, (b.hub.dropReceiver receiver).2.count = b.hub.count ∧
      ∀ depth payload, ((b.hub.dropReceiver receiver).2.emit? depth payload).map (·.map id bare) =
        (b.hub.emit? depth payload).map (·.map id bare) := by
  obtain ⟨hfits, -⟩ := kept.spec
  have hascending : (subscriptions b.journal).Pairwise (· < ·) := by
    rw [hfits.numbered]
    exact List.pairwise_lt_range
  refine ⟨hascending, fun hfew => ?_, fun id => ?_, ?_, fun id hopened hheld => ?_,
    fun receiver => ⟨rfl, fun depth payload => emit?_bare depth (bare_eq_iff.mpr ⟨rfl, rfl⟩)⟩⟩
  · rw [List.pairwise_map]
    refine hascending.imp_of_mem fun {i j} _ hj hij => word_lt_word hij ?_
    rw [hfits.numbered, List.length_range] at hfew
    rw [hfits.numbered, List.mem_range] at hj
    exact hj.trans hfew
  · rw [← hfits.subscribed id]
    simp [Hub.unsubscribe, Roster.unsubscribe, Roster.has, Roster.ids]
  · exact ⟨b.hub.roster.ids, hfits.ascending, hfits.subscribed, (List.length_map _).symm⟩
  · exact ⟨kept.nodup_deliveries id, fun emit payload => mem_deliveries_iff.trans kept.called_iff,
      hfits.yields hopened hheld⟩

/-- A listener is removed when its receiver has yet to yield a payload. -/
theorem delivers_of_unsubscribe :
    ∃ b : Book, b.Kept ∧
      b.journal = [.subscribed 0, .opened 0, .begun "a", .called 2 0 "a", .ended 2 1,
        .unsubscribed 0] ∧
      b.hub.count = 0 ∧ ¬Subscribed b.journal 0 ∧ (b.hub.receive 0).1 = some (.payload "a") ∧
      Yields (receivedBy 0 b.journal) ((deliveries 0 b.journal).map Prod.snd)
        (Subscribed b.journal 0) (b.hub.receive 0).1 := by
  have hrun : ((Book.channel {}).2.emit? 1 "a").map (fun answer =>
      ((answer.2.unsubscribe 0).2.journal, (answer.2.unsubscribe 0).2.hub.count,
        ((answer.2.unsubscribe 0).2.hub.receive 0).1,
        ((answer.2.unsubscribe 0).2.hub.unsubscribe 0).1)) =
      some ([.subscribed 0, .opened 0, .begun "a", .called 2 0 "a", .ended 2 1, .unsubscribed 0], 0,
        some (.payload "a"), false) := by
    decide
  obtain ⟨⟨reached, b⟩, hemit, hanswer⟩ := Option.map_eq_some_iff.mp hrun
  obtain ⟨hjournal, hcount, hreceipt, hgone⟩ := by simpa only [Prod.mk.injEq] using hanswer
  have hkept : (b.unsubscribe 0).2.Kept := (Kept.begin.channel.emit hemit).unsubscribe 0
  obtain ⟨-, -, hremoves, -, hyields, -⟩ := hkept.delivers
  have hnot : ¬Subscribed (b.unsubscribe 0).2.journal 0 := by
    rw [← hremoves 0, hgone]
    exact Bool.false_ne_true
  exact ⟨_, hkept, hjournal, hcount, hnot, hreceipt,
    (hyields 0 (by simp [hjournal]) (by simp [hjournal])).2.2⟩

end Book
end TextReveal.Hub
