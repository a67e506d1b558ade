import Mathlib.Data.List.Basic
import Mathlib.Data.List.Induction
import TextReveal.Cancellation
/-!
Cancellations over time. All tokens say the same, to those who ask and to those who wait: whether
the source has cancelled or is gone. Tokens come and go without anybody else noticing.
-/
namespace TextReveal.Cancellation

/-- What can be done to a source and its tokens. -/
inductive Operation where
  | token
  | clone (token : Nat)
  | dropToken (token : Nat)
  | cancel
  | dropSource
  deriving DecidableEq, Repr

def apply (c : Cancellation) : Operation → Cancellation
  | .token => c.token.2
  | .clone token => (c.clone token).2
  | .dropToken token => (c.dropToken token).2
  | .cancel => c.cancel.2
  | .dropSource => c.dropSource.2

/-- The token that an operation makes. -/
def made? (c : Cancellation) : Operation → Option Nat
  | .token => c.token.1
  | .clone token => (c.clone token).1
  | .dropToken _ | .cancel | .dropSource => none

def after (ops : List Operation) : Cancellation := ops.foldl apply {}

/-- Cancelled, or left without anybody who could still cancel. -/
def IsOff (ops : List Operation) : Prop := .cancel ∈ ops ∨ .dropSource ∈ ops

instance (ops : List Operation) : Decidable (IsOff ops) :=
  inferInstanceAs (Decidable (_ ∨ _))

/-- A token has been made, from the source or from any other token, and not been dropped since. -/
def Lives (ops : List Operation) (token : Nat) : Prop :=
  ∃ before op behind, ops = before ++ op :: behind ∧ (after before).made? op = some token ∧
    .dropToken token ∉ behind

/-- What holds of a source and its tokens when these operations have been done. -/
structure Agrees (ops : List Operation) (c : Cancellation) : Prop where
  source : c.sourceReport = if .dropSource ∈ ops then none else some (decide (.cancel ∈ ops))
  held : ∀ token, c.isHeld token = true ↔ Lives ops token
  reports : ∀ token, Lives ops token → c.tokenReports[token]? = some (some (decide (IsOff ops)))
  ready : ∀ token, Lives ops token → c.readiness[token]? = some (some (decide (IsOff ops)))
  /-- Once a token says that it is cancelled, it says so as long as it lives. -/
  lasting : ∀ token more, c.tokenReports[token]? = some (some true) → Lives (ops ++ more) token →
    (more.foldl apply c).tokenReports[token]? = some (some true)
  /-- Making and dropping tokens is no concern of the source or of other tokens. -/
  apart : ∀ op, op ≠ .cancel → op ≠ .dropSource →
    (c.apply op).sourceReport = c.sourceReport ∧
    ∀ token, Lives ops token → op ≠ .dropToken token →
      (c.apply op).tokenReports[token]? = c.tokenReports[token]? ∧
      (c.apply op).readiness[token]? = c.readiness[token]?

section
variable {c : Cancellation} {ops : List Operation} {op : Operation} {token : Nat}

theorem after_concat (ops : List Operation) (op : Operation) :
    after (ops ++ [op]) = (after ops).apply op := by
  rw [after, List.foldl_concat, after]

/-- Those who wait on a token go on as soon as it would say that it is cancelled. -/
theorem readiness_eq_tokenReports (c : Cancellation) : c.readiness = c.tokenReports := by
  rw [readiness, tokenReports, isCancelled]
  cases c.requested <;> cases c.sourceHeld <;> rfl

theorem isHeld_iff : c.isHeld token = true ↔ c.tokens[token]? = some true := by
  rw [isHeld, List.getD_eq_getElem?_getD]
  cases c.tokens[token]? <;> simp

theorem tokenReports_of_isHeld (h : c.isHeld token = true) :
    c.tokenReports[token]? = some (some c.isCancelled) := by
  rw [tokenReports, List.getElem?_map, isHeld_iff.mp h]
  rfl

/-- A new token comes behind all others. -/
theorem getElem?_addToken (c : Cancellation) (token : Nat) :
    c.addToken.2.tokens[token]? = if c.addToken.1 = token then some true else c.tokens[token]? := by
  show (c.tokens ++ [true])[token]? = if c.tokens.length = token then _ else _
  split
  next h => rw [← h, List.getElem?_concat_length]
  next h => rw [List.getElem?_append, List.getElem?_singleton]; grind

theorem getElem?_apply (c : Cancellation) (op : Operation) (token : Nat) :
    (c.apply op).tokens[token]? =
      if c.made? op = some token then some true
      else if op = .dropToken token then c.tokens[token]?.map fun _ => false
      else c.tokens[token]? := by
  cases op with
  | token =>
    simp only [apply, made?, Cancellation.token]
    split
    · simp [getElem?_addToken]
    · simp
  | clone other =>
    simp only [apply, made?, clone]
    split
    · simp [getElem?_addToken]
    · simp
  | dropToken other =>
    simp only [apply, made?, dropToken, List.getElem?_set]
    grind
  | cancel => simp [apply, made?, cancel]
  | dropSource => simp [apply, made?, dropSource]

theorem isHeld_apply : (c.apply op).isHeld token = true ↔
    c.made? op = some token ∨ c.isHeld token = true ∧ op ≠ .dropToken token := by
  rw [isHeld_iff, isHeld_iff, getElem?_apply]
  by_cases hmade : c.made? op = some token
  · simp [hmade]
  · by_cases hdrop : op = .dropToken token
    · simp [hdrop]
    · simp [hmade, hdrop]

theorem not_lives_nil : ¬Lives [] token := by
  rintro ⟨before, op, behind, hsplit, -⟩
  exact List.append_ne_nil_of_right_ne_nil before (List.cons_ne_nil op behind) hsplit.symm

theorem lives_concat : Lives (ops ++ [op]) token ↔
    (after ops).made? op = some token ∨ Lives ops token ∧ op ≠ .dropToken token := by
  constructor
  · rintro ⟨before, maker, behind, hsplit, hmade, hkept⟩
    obtain rfl | ⟨behind, last, rfl⟩ := List.eq_nil_or_concat' behind
    · obtain ⟨rfl, hop⟩ := List.append_inj' hsplit rfl
      cases hop
      exact .inl hmade
    · rw [← List.cons_append, ← List.append_assoc] at hsplit
      obtain ⟨rfl, hop⟩ := List.append_inj' hsplit rfl
      cases hop
      simp only [List.mem_append, List.mem_singleton, not_or] at hkept
      exact .inr ⟨⟨before, maker, behind, rfl, hmade, hkept.1⟩, Ne.symm hkept.2⟩
  · rintro (hmade | ⟨⟨before, maker, behind, rfl, hmade, hkept⟩, hop⟩)
    · exact ⟨ops, op, [], rfl, hmade, List.not_mem_nil⟩
    · exact ⟨before, maker, behind ++ [op], by simp, hmade, by simp [hkept, Ne.symm hop]⟩

theorem isHeld_after (ops : List Operation) (token : Nat) :
    (after ops).isHeld token = true ↔ Lives ops token := by
  induction ops using List.reverseRecOn with
  | nil => simp [not_lives_nil, after, isHeld]
  | append_singleton ops op ih => rw [after_concat, isHeld_apply, lives_concat, ih]

theorem sourceHeld_apply (c : Cancellation) (op : Operation) :
    (c.apply op).sourceHeld = (c.sourceHeld && decide (op ≠ .dropSource)) := by
  cases op with
  | token =>
    simp only [apply, Cancellation.token]
    split <;> simp [addToken]
  | clone other =>
    simp only [apply, clone]
    split <;> simp [addToken]
  | dropToken | cancel | dropSource => simp [apply, dropToken, cancel, dropSource]

theorem requested_apply (c : Cancellation) (op : Operation) :
    (c.apply op).requested = (c.requested || decide (op = .cancel) && c.sourceHeld) := by
  cases op with
  | token =>
    simp only [apply, Cancellation.token]
    split <;> simp [addToken]
  | clone other =>
    simp only [apply, clone]
    split <;> simp [addToken]
  | dropToken | cancel | dropSource => simp [apply, dropToken, cancel, dropSource]

/-- It is no matter that a source that is gone cannot cancel any more. -/
theorem isCancelled_apply (c : Cancellation) (op : Operation) :
    (c.apply op).isCancelled = (c.isCancelled || decide (op = .cancel ∨ op = .dropSource)) := by
  rw [isCancelled, isCancelled, sourceHeld_apply, requested_apply]
  cases c.requested <;> cases c.sourceHeld <;> simp

theorem sourceHeld_after (ops : List Operation) :
    (after ops).sourceHeld = decide (.dropSource ∉ ops) := by
  induction ops using List.reverseRecOn with
  | nil => rfl
  | append_singleton ops op ih => simp [after_concat, sourceHeld_apply, ih, eq_comm]

theorem isCancelled_after (ops : List Operation) :
    (after ops).isCancelled = decide (IsOff ops) := by
  induction ops using List.reverseRecOn with
  | nil => rfl
  | append_singleton ops op ih =>
    rw [after_concat, isCancelled_apply, ih, ← Bool.decide_or, decide_eq_decide]
    simp only [IsOff, List.mem_append, List.mem_singleton]
    grind

/-- A source that is there has cancelled if anybody has. -/
theorem sourceReport_after (ops : List Operation) : (after ops).sourceReport =
    if .dropSource ∈ ops then none else some (decide (.cancel ∈ ops)) := by
  have hheld := sourceHeld_after ops
  have hoff := isCancelled_after ops
  rw [isCancelled] at hoff
  rw [sourceReport]
  by_cases hgone : .dropSource ∈ ops
  · simp [hheld, hgone]
  · simp only [hheld, hgone, not_false_eq_true, decide_true, Bool.not_true, Bool.or_false,
      if_true, if_false] at hoff ⊢
    simp [hoff, IsOff, hgone]

theorem tokenReports_after (h : Lives ops token) :
    (after ops).tokenReports[token]? = some (some (decide (IsOff ops))) := by
  rw [tokenReports_of_isHeld ((isHeld_after ops token).mpr h), isCancelled_after]

theorem isCancelled_of_tokenReports (h : c.tokenReports[token]? = some (some true)) :
    c.isCancelled = true := by
  rw [tokenReports, List.getElem?_map] at h
  obtain ⟨held, -, hheld⟩ := Option.map_eq_some_iff.mp h
  simpa using (Option.ite_none_right_eq_some.mp hheld).2

theorem sourceReport_apply (hcancel : op ≠ .cancel) (hdrop : op ≠ .dropSource) :
    (c.apply op).sourceReport = c.sourceReport := by
  simp [sourceReport, sourceHeld_apply, requested_apply, hcancel, hdrop]

/-- A token that lives on through an operation that cancels nothing says what it said before. -/
theorem tokenReports_apply (hcancel : op ≠ .cancel) (hdrop : op ≠ .dropSource)
    (hheld : c.isHeld token = true) (hkept : op ≠ .dropToken token) :
    (c.apply op).tokenReports[token]? = c.tokenReports[token]? := by
  rw [tokenReports_of_isHeld hheld, tokenReports_of_isHeld (isHeld_apply.mpr (.inr ⟨hheld, hkept⟩)),
    isCancelled_apply]
  simp [hcancel, hdrop]

end

/-- Whatever is done to a source and its tokens, in any order: every token that lives says that it
is cancelled exactly if the source has cancelled or has been dropped, to those who ask and to those
who wait, and says so from then on. No token has a part in what any other says. -/
theorem agrees_after (ops : List Operation) : Agrees ops (after ops) where
  source := sourceReport_after ops
  held := isHeld_after ops
  reports _ h := tokenReports_after h
  ready token h := by
    rw [readiness_eq_tokenReports]
    exact tokenReports_after h
  lasting token more h hlives := by
    have hoff : IsOff ops := by
      simpa [isCancelled_after] using isCancelled_of_tokenReports h
    have hlater : IsOff (ops ++ more) :=
      hoff.imp (List.mem_append_left more) (List.mem_append_left more)
    rw [after, ← List.foldl_append, ← after, tokenReports_after hlives, decide_eq_true hlater]
  apart op hcancel hdrop := by
    refine ⟨sourceReport_apply hcancel hdrop, fun token hlives hkept => ?_⟩
    have hsame := tokenReports_apply hcancel hdrop ((isHeld_after ops token).mpr hlives) hkept
    exact ⟨hsame, by simpa only [readiness_eq_tokenReports] using hsame⟩

/-- A clone outlives the token it was made of, and the source. -/
example :
    (after [.token, .clone 0, .dropToken 0, .dropSource]).tokenReports = [none, some true] := by
  decide

end TextReveal.Cancellation
