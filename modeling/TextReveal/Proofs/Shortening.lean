import TextReveal.Proofs.Rounding
/-!
The shortest decimal. It lies among the reals that round to its number, on a grid so coarse that the
next coarser one is wider than the way to the upper end, and well inside if its own grid is fine.
-/
namespace TextReveal.Number

namespace Neighbourhood
variable {n : Neighbourhood}

/-- The way down is no longer than the way up, and at least half as long. -/
structure IsProper (n : Neighbourhood) : Prop where
  low_lt : n.low < n.centre
  down_le : 2 * n.centre ≤ n.low + n.high
  le_down : n.high + 2 * n.low ≤ 3 * n.centre

/-- A point of the grid with steps of `g` that stands for the number: it rounds to the number, and
it is at least half the way from either end that is further off than a step. -/
structure Suits (n : Neighbourhood) (g r : ℚ) : Prop where
  low_le : n.low ≤ r
  le_high : r ≤ n.high
  ends : r = n.low ∨ r = n.high → n.endsIncluded
  above : n.low + g < n.centre → n.low + n.centre ≤ 2 * r
  below : n.centre + g < n.high → 2 * r ≤ n.centre + n.high

theorem IsProper.onGrid_some (h : n.IsProper) {halfUp : Bool} {unit step d : Nat}
    (hunit : 0 < unit) (hstep : 0 < step) (hgrid : n.onGrid halfUp unit step = some d) :
    n.contains unit (d * step) ∧
      (n.low * unit + step < n.centre * unit →
        n.low * unit + n.centre * unit ≤ 2 * (d * step)) ∧
      (n.centre * unit + step < n.high * unit →
        2 * (d * step) ≤ n.centre * unit + n.high * unit) := by
  have hlow := Nat.mul_lt_mul_of_pos_right h.low_lt hunit
  have hdown := Nat.mul_le_mul_right unit h.down_le
  have hdown' := Nat.mul_le_mul_right unit h.le_down
  have hdiv := Nat.div_add_mod' (n.centre * unit) step
  have hmod := Nat.mod_lt (n.centre * unit) hstep
  have hlower := @contains_iff n unit (n.centre * unit / step * step)
  have hupper := @contains_iff n unit ((n.centre * unit / step + 1) * step)
  unfold onGrid at hgrid
  generalize n.centre * unit / step = q at *
  generalize n.centre * unit % step = r at *
  simp only [Nat.add_mul, Nat.mul_assoc, Nat.one_mul] at hdown hdown' hupper hgrid
  by_cases hl : n.contains unit (q * step) <;> by_cases hu : n.contains unit (q * step + step)
  · -- Both neighbours on the grid stand for the number, and the nearer one is taken.
    simp only [hl, hu, Bool.and_self, if_true, Bool.or_eq_true, decide_eq_true_eq,
      Bool.and_eq_true, beq_iff_eq] at hgrid
    split at hgrid <;> cases hgrid
    · exact ⟨hl, by omega, by omega⟩
    · rw [Nat.succ_mul]
      exact ⟨hu, by omega, by omega⟩
  · simp only [hl, hu, Bool.and_false, Bool.false_eq_true, if_false, if_true] at hgrid
    cases hgrid
    rw [hupper] at hu
    exact ⟨hl, by omega, by omega⟩
  · simp only [hl, hu, Bool.false_and, Bool.false_eq_true, if_false, if_true] at hgrid
    cases hgrid
    rw [hlower] at hl
    rw [Nat.succ_mul]
    exact ⟨hu, by omega, by omega⟩
  · simp [hl, hu] at hgrid

theorem IsProper.onGrid_none (h : n.IsProper) {halfUp : Bool} {unit step : Nat}
    (hunit : 0 < unit) (hstep : 0 < step) (hgrid : n.onGrid halfUp unit step = none) :
    n.high * unit ≤ n.centre * unit + step := by
  have hlow := Nat.mul_lt_mul_of_pos_right h.low_lt hunit
  have hdiv := Nat.div_add_mod' (n.centre * unit) step
  have hmod := Nat.mod_lt (n.centre * unit) hstep
  have hupper := @contains_iff n unit ((n.centre * unit / step + 1) * step)
  have hu : ¬n.contains unit ((n.centre * unit / step + 1) * step) := by
    unfold onGrid at hgrid
    intro hu
    simp only [hu, Bool.and_true, if_true] at hgrid
    split at hgrid
    · split at hgrid <;> cases hgrid
    · cases hgrid
  rw [hupper, Nat.succ_mul] at hu
  generalize n.centre * unit / step * step = q at *
  omega

/-- A step of a decimal grid in quarters of the smallest number. -/
def quarters (f : Format) (exponent : ℤ) : ℚ := 10 ^ exponent * (4 * f.one)

theorem four_mul_one_single : (4 * Format.single.one : ℚ) = 2 ^ 151 := by
  norm_num [Format.one, Format.single, twoTo_eq]

theorem quarters_single (exponent : ℤ) : quarters .single exponent = 10 ^ exponent * 2 ^ 151 := by
  rw [quarters, four_mul_one_single]

theorem quarters_mono {f : Format} {exponent exponent' : ℤ} (h : exponent ≤ exponent') :
    quarters f exponent ≤ quarters f exponent' :=
  mul_le_mul_of_nonneg_right (zpow_le_zpow_right₀ (by norm_num) h) (by positivity)

theorem quarters_succ (f : Format) (exponent : ℤ) :
    quarters f (exponent + 1) = 10 * quarters f exponent := by
  rw [quarters, quarters, zpow_add_one₀ (by norm_num)]
  ring

theorem onPower_eq (f : Format) (n : Neighbourhood) (halfUp : Bool) (exponent : ℤ) :
    ∃ unit step : Nat, 0 < unit ∧ 0 < step ∧ (step : ℚ) = quarters f exponent * unit ∧
      n.onPower f halfUp exponent = (n.onGrid halfUp unit step).map (⟨·, exponent⟩) := by
  have hone := f.one_pos
  by_cases h : 0 ≤ exponent
  · obtain ⟨k, rfl⟩ := Int.eq_ofNat_of_zero_le h
    refine ⟨1, 4 * f.one * 10 ^ k, one_pos, by positivity, ?_, ?_⟩
    · push_cast [quarters, zpow_natCast]
      ring
    · rw [onPower, if_pos h, Int.toNat_natCast, tenTo_eq]
  · obtain ⟨k, rfl⟩ : ∃ k : Nat, exponent = -k := ⟨(-exponent).toNat, by omega⟩
    refine ⟨10 ^ k, 4 * f.one, by positivity, by positivity, ?_, ?_⟩
    · push_cast [quarters, zpow_neg, zpow_natCast]
      field_simp
    · rw [onPower, if_neg h, neg_neg, Int.toNat_natCast, tenTo_eq]

theorem IsProper.onPower_some (h : n.IsProper) {f : Format} {halfUp : Bool} {exponent : ℤ}
    {d : Decimal} (hd : n.onPower f halfUp exponent = some d) :
    d.exponent = exponent ∧ n.Suits (quarters f exponent) (d.digits * quarters f exponent) := by
  obtain ⟨unit, step, hunit, hstep, heq, hpower⟩ := onPower_eq f n halfUp exponent
  rw [hpower, Option.map_eq_some_iff] at hd
  obtain ⟨digits, hgrid, rfl⟩ := hd
  obtain ⟨hin, habove, hbelow⟩ := h.onGrid_some hunit hstep hgrid
  rw [contains_iff] at hin
  obtain ⟨hlow, hhigh, hends⟩ := hin
  have hpos : (0 : ℚ) < unit := by exact_mod_cast hunit
  -- All is compared after it is multiplied by `unit`, where it is whole.
  have hpoint : digits * quarters f exponent * unit = (digits * step : ℚ) := by rw [heq]; ring
  generalize quarters f exponent = g at *
  refine ⟨rfl, le_of_mul_le_mul_right ?_ hpos, le_of_mul_le_mul_right ?_ hpos, fun hend => ?_,
    fun h => le_of_mul_le_mul_right ?_ hpos, fun h => le_of_mul_le_mul_right ?_ hpos⟩
  · rw [hpoint]
    exact_mod_cast hlow
  · rw [hpoint]
    exact_mod_cast hhigh
  · refine hends (hend.imp (fun h => ?_) fun h => ?_) <;>
    · rw [h] at hpoint
      exact_mod_cast hpoint.symm
  · have hlt := mul_lt_mul_of_pos_right h hpos
    rw [add_mul, ← heq] at hlt
    rw [add_mul, mul_assoc, hpoint]
    exact_mod_cast habove (by exact_mod_cast hlt)
  · have hlt := mul_lt_mul_of_pos_right h hpos
    rw [add_mul, ← heq] at hlt
    rw [add_mul, mul_assoc, hpoint]
    exact_mod_cast hbelow (by exact_mod_cast hlt)

theorem IsProper.onPower_none (h : n.IsProper) {f : Format} {halfUp : Bool} {exponent : ℤ}
    (hd : n.onPower f halfUp exponent = none) :
    (n.high : ℚ) ≤ n.centre + quarters f exponent := by
  obtain ⟨unit, step, hunit, hstep, heq, hpower⟩ := onPower_eq f n halfUp exponent
  rw [hpower, Option.map_eq_none_iff] at hd
  have hpos : (0 : ℚ) < unit := by exact_mod_cast hunit
  have hle : (n.high * unit : ℚ) ≤ n.centre * unit + step := by
    exact_mod_cast h.onGrid_none hunit hstep hd
  rw [heq, ← add_mul] at hle
  exact le_of_mul_le_mul_right hle hpos

end Neighbourhood

/-- What is found first along a range is not found before. -/
theorem findSome?_range_eq_some {α : Type} {p : Nat → Option α} {n : Nat} {a : α}
    (h : (List.range n).findSome? p = some a) : ∃ i < n, p i = some a ∧ ∀ j < i, p j = none := by
  obtain ⟨before, i, rest, hrange, hi, hnone⟩ := List.findSome?_eq_some_iff.mp h
  rw [List.range_eq_range', List.range'_eq_append_iff] at hrange
  obtain ⟨k, hk, rfl, hcons⟩ := hrange
  obtain ⟨rfl, hpos, -⟩ := List.range'_eq_cons_iff.mp hcons.symm
  refine ⟨_, by omega, hi, fun j hj => hnone j ?_⟩
  rw [List.mem_range'_1]
  omega

namespace Format

theorem significand_pos {f : Format} {magnitude : Nat} (h : 0 < magnitude) :
    0 < f.significand magnitude := by
  have hsum := f.scale_mul_add_significand magnitude
  rcases Nat.eq_zero_or_pos (f.scale magnitude) with hzero | hpos
  · rw [hzero] at hsum
    omega
  · exact f.binade_pos.trans_le (f.binade_le_significand hpos)

theorem scale_single_le {magnitude : Nat} (h : magnitude < single.infinite) :
    single.scale magnitude ≤ 253 := by
  have hdiv : magnitude / single.binade < 255 :=
    Nat.div_lt_of_lt_mul (h.trans_eq (by decide))
  unfold scale
  omega

end Format

namespace Binary

theorem isProper_neighbourhood {f : Format} {x : Binary f} (h : 0 < x.magnitude) :
    x.neighbourhood.IsProper := by
  have hm := f.significand_pos h
  have hpos := Nat.two_pow_pos (f.scale x.magnitude)
  simp only [neighbourhood, twoTo_eq]
  generalize f.significand x.magnitude = m at *
  refine ⟨Nat.mul_lt_mul_of_pos_right ?_ hpos, ?_, ?_⟩
  · split <;> omega
  · rw [← Nat.add_mul, ← Nat.mul_assoc]
    refine Nat.mul_le_mul_right _ ?_
    split <;> omega
  · rw [← Nat.mul_assoc, ← Nat.mul_assoc, ← Nat.add_mul]
    refine Nat.mul_le_mul_right _ ?_
    split <;> omega

theorem high_neighbourhood {f : Format} (x : Binary f) :
    x.neighbourhood.high = x.neighbourhood.centre + 2 ^ (f.scale x.magnitude + 1) := by
  simp only [neighbourhood, twoTo_eq]
  ring

theorem shortest_eq (x : Single) (halfUp : Bool) :
    x.shortest halfUp = ((List.range 193).findSome? fun (i : Nat) =>
      x.neighbourhood.onPower .single halfUp ((43 : ℤ) - i)).getD ⟨0, 0⟩ := by
  have hpowers : Format.single.powers = (List.range 193).map fun (i : Nat) => (43 : ℤ) - i := rfl
  simp only [shortest, hpowers, List.findSome?_map, Function.comp_def]

/-- The shortest decimal is on the coarsest grid that has one. The finest has one for certain: its
steps are less than the way from any number to the upper end. -/
theorem exists_onPower_eq {x : Single} (hpos : 0 < x.magnitude) (halfUp : Bool) :
    ∃ i : Nat, x.neighbourhood.onPower .single halfUp ((43 : ℤ) - i) = some (x.shortest halfUp) ∧
      ∀ i' < i, x.neighbourhood.onPower .single halfUp ((43 : ℤ) - (i' : Nat)) = none := by
  rw [shortest_eq]
  cases hfound : (List.range 193).findSome? fun (i : Nat) =>
      x.neighbourhood.onPower .single halfUp ((43 : ℤ) - i) with
  | none =>
    have hfinest := (isProper_neighbourhood hpos).onPower_none
      (List.findSome?_eq_none_iff.mp hfound 192 (by simp))
    have hsmall : Neighbourhood.quarters .single ((43 : ℤ) - (192 : Nat)) < 2 := by
      norm_num [Neighbourhood.quarters_single, zpow_neg]
    have hhigh : (x.neighbourhood.high : ℚ) =
        x.neighbourhood.centre + 2 ^ (Format.single.scale x.magnitude + 1) := by
      exact_mod_cast x.high_neighbourhood
    have hwide : (2 : ℚ) ^ 1 ≤ 2 ^ (Format.single.scale x.magnitude + 1) :=
      pow_le_pow_right₀ one_le_two (by omega)
    linarith
  | some d =>
    obtain ⟨i, -, hd, hcoarser⟩ := findSome?_range_eq_some hfound
    exact ⟨i, hd, hcoarser⟩

/-- The shortest decimal stands for its number, and a grid ten times as coarse would be wider than
the way to the upper end. -/
theorem shortest_suits {x : Single} (hx : x.isFinite) (hpos : 0 < x.magnitude) (halfUp : Bool) :
    x.neighbourhood.Suits (Neighbourhood.quarters .single (x.shortest halfUp).exponent)
        ((x.shortest halfUp).digits *
          Neighbourhood.quarters .single (x.shortest halfUp).exponent) ∧
      (x.neighbourhood.high : ℚ) ≤ x.neighbourhood.centre +
        10 * Neighbourhood.quarters .single (x.shortest halfUp).exponent := by
  have hproper := isProper_neighbourhood hpos
  obtain ⟨i, hd, hcoarser⟩ := exists_onPower_eq hpos halfUp
  obtain ⟨hexponent, hsuits⟩ := hproper.onPower_some hd
  rw [hexponent]
  refine ⟨hsuits, ?_⟩
  cases i with
  | zero =>
    have hscale := Format.scale_single_le (by simpa [isFinite] using hx)
    have hhigh : (x.neighbourhood.high : ℚ) =
        x.neighbourhood.centre + 2 ^ (Format.single.scale x.magnitude + 1) := by
      exact_mod_cast x.high_neighbourhood
    have hnarrow : (2 : ℚ) ^ (Format.single.scale x.magnitude + 1) ≤ 2 ^ 254 :=
      pow_le_pow_right₀ one_le_two (by omega)
    have htop : (2 : ℚ) ^ 254 ≤ 10 * Neighbourhood.quarters .single ((43 : ℤ) - (0 : Nat)) := by
      norm_num [Neighbourhood.quarters_single]
    linarith
  | succ i =>
    have hnone := hproper.onPower_none (hcoarser i i.lt_succ_self)
    rwa [← Neighbourhood.quarters_succ, Nat.cast_succ, sub_add_eq_sub_sub, sub_add_cancel]

theorem exists_high_single {x : Single} (hx : x.isFinite) (hpos : 0 < x.magnitude) :
    ∃ m k, m < 2 ^ 24 ∧ (1 ≤ k ∧ k ≤ 254) ∧ 0 < x.neighbourhood.low ∧
      x.neighbourhood.high = (2 * m + 1) * 2 ^ k ∧
      x.neighbourhood.high = x.neighbourhood.centre + 2 ^ k := by
  have hm := Format.single.significand_lt x.magnitude
  have hm' := Format.single.significand_pos hpos
  have hk := Format.scale_single_le (by simpa [isFinite] using hx)
  refine ⟨Format.single.significand x.magnitude, Format.single.scale x.magnitude + 1, hm,
    by omega, ?_, ?_, x.high_neighbourhood⟩
  · simp only [neighbourhood, twoTo_eq]
    refine Nat.mul_pos ?_ (Nat.two_pow_pos _)
    split <;> omega
  · simp only [neighbourhood, twoTo_eq]
    ring

/-- The shortest decimal of a single has few digits, and its power of ten is moderate. -/
theorem shortest_bounds {x : Single} (hx : x.isFinite) (hpos : 0 < x.magnitude) (halfUp : Bool) :
    0 < (x.shortest halfUp).digits ∧ (x.shortest halfUp).digits < 2 ^ 29 ∧
      -46 ≤ (x.shortest halfUp).exponent ∧ (x.shortest halfUp).exponent ≤ 38 := by
  obtain ⟨hsuits, hcoarse⟩ := shortest_suits hx hpos halfUp
  generalize x.shortest halfUp = d at *
  obtain ⟨m, k, hm, hk, hlow, hhigh, hwidth⟩ := exists_high_single hx hpos
  have hlow' : (0 : ℚ) < x.neighbourhood.low := by exact_mod_cast hlow
  have hhigh' : (x.neighbourhood.high : ℚ) = (2 * m + 1) * 2 ^ k := by exact_mod_cast hhigh
  have hwidth' : (x.neighbourhood.high : ℚ) = x.neighbourhood.centre + 2 ^ k := by
    exact_mod_cast hwidth
  have hin := hsuits.low_le
  have hin' := hsuits.le_high
  -- The next power of ten was too coarse, so ten times this one is as wide as the upper half.
  have hstep : (2 : ℚ) ^ k ≤ 10 * Neighbourhood.quarters .single d.exponent := by linarith
  have hpositive : 0 < Neighbourhood.quarters .single d.exponent := by
    linarith [show (0 : ℚ) < 2 ^ k by positivity]
  have hdigits : 0 < d.digits := by
    by_contra! hzero
    rw [Nat.le_zero.mp hzero, Nat.cast_zero, zero_mul] at hin
    linarith
  refine ⟨hdigits, ?_, ?_, ?_⟩
  · have hle : (d.digits : ℚ) ≤ (2 * m + 1) * 10 := by
      refine le_of_mul_le_mul_right ?_ hpositive
      calc d.digits * Neighbourhood.quarters .single d.exponent ≤ (2 * m + 1) * 2 ^ k := by
            rwa [← hhigh']
        _ ≤ (2 * m + 1) * 10 * Neighbourhood.quarters .single d.exponent := by
            rw [mul_assoc]
            gcongr
    have hle' : d.digits ≤ (2 * m + 1) * 10 := by exact_mod_cast hle
    omega
  · by_contra! hsmall
    have hle := Neighbourhood.quarters_mono (f := .single) (show d.exponent + 1 ≤ -46 by omega)
    rw [Neighbourhood.quarters_succ, Neighbourhood.quarters_single (-46)] at hle
    have hleast : (2 : ℚ) ^ 1 ≤ 2 ^ k := pow_le_pow_right₀ one_le_two hk.1
    norm_num at hle
    linarith
  · by_contra! hlarge
    have hle := Neighbourhood.quarters_mono (f := .single) (show 39 ≤ d.exponent by omega)
    rw [Neighbourhood.quarters_single 39] at hle
    have hone : (1 : ℚ) ≤ d.digits := by exact_mod_cast hdigits
    have hm' : (2 * m + 1 : ℚ) ≤ 2 ^ 25 := by exact_mod_cast (show 2 * m + 1 ≤ 2 ^ 25 by omega)
    have hmost : (2 * m + 1) * 2 ^ k ≤ (2 : ℚ) ^ 25 * 2 ^ 254 := by
      gcongr
      · norm_num
      · exact hk.2
    have hbelow := le_mul_of_one_le_left hpositive.le hone
    norm_num at hle
    linarith

end Binary
end TextReveal.Number
