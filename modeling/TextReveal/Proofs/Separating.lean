import TextReveal.Proofs.Shortening
/-!
How close a short decimal comes to a number halfway between two singles. By the theory of continued
fractions the two are apart, relative to their size, by more than two roundings to doubles can move
anything, but for three decimals.
-/
namespace TextReveal.Number

/-- A late convergent of the continued fraction of a quotient: the last with a numerator below
`bound`, from the two before it on. -/
def convergent (bound : Nat) : Nat → Nat → Nat → Nat × Nat → Nat × Nat → Nat × Nat
  | 0, _, _, _, last => last
  | fuel + 1, num, den, (p₀, q₀), (p, q) =>
    let next := (num / den * p + p₀, num / den * q + q₀)
    if den = 0 ∨ bound ≤ next.1 then (p, q)
    else convergent bound fuel den (num % den) (p, q) next

/-- The first grid, counted from `10 ^ -46`, with steps of `2 ^ j` quarters of the smallest single
at least. -/
def finest (j : Nat) : Nat := (46 - (151 - (j : ℤ)) * 30103 / 100000).toNat

/-- A step of that grid, over `2 ^ j` quarters, is the quotient of these. -/
def stepNum (j : Nat) : Nat := 10 ^ finest j * 2 ^ 151

def stepDen (j : Nat) : Nat := 2 ^ j * 10 ^ 46

/-- A decimal that is close to a half, and the half in quarters of the smallest single: an odd number
times a power of two. -/
structure NearMiss where
  digits : Nat
  exponent : ℤ
  odd : Nat
  power : Nat
deriving DecidableEq

def nearMisses : List NearMiss :=
  [⟨7038531, -32, 22841339, 43⟩, ⟨14077062, -32, 22841339, 44⟩, ⟨25645849, -15, 28874659, 101⟩]

/-- How far `p / q` is from a step of the grid, over `2 ^ j` quarters. -/
def gap (j p q : Nat) : Nat := (p * stepDen j - q * stepNum j) + (q * stepNum j - p * stepDen j)

/-- What `p / q` has to satisfy to keep the decimals of one grid and the halves of one power of two
apart. -/
structure Apart (j p q : Nat) : Prop where
  coprime : q.Coprime p
  step_lt : stepNum j < 10 * stepDen j
  gap_le : 2 ^ 54 * gap j p q + 5 * (q * stepNum j) ≤ 2 ^ 29 * stepNum j
  far : gap j p q = 0 ∨ 5 * (q * stepNum j) < 2 ^ 54 * gap j p q ∨ 2 ^ 25 ≤ p ∨
    2 ^ 25 ≤ 2 * p ∧ ⟨q, (finest j : ℤ) - 46, p, j⟩ ∈ nearMisses

instance (j p q : Nat) : Decidable (Apart j p q) :=
  decidable_of_iff (q.Coprime p ∧ stepNum j < 10 * stepDen j ∧
      2 ^ 54 * gap j p q + 5 * (q * stepNum j) ≤ 2 ^ 29 * stepNum j ∧
      (gap j p q = 0 ∨ 5 * (q * stepNum j) < 2 ^ 54 * gap j p q ∨ 2 ^ 25 ≤ p ∨
        2 ^ 25 ≤ 2 * p ∧ ⟨q, (finest j : ℤ) - 46, p, j⟩ ∈ nearMisses))
    ⟨fun ⟨hcoprime, hstep, hgap, hfar⟩ => ⟨hcoprime, hstep, hgap, hfar⟩,
      fun h => ⟨h.coprime, h.step_lt, h.gap_le, h.far⟩⟩

-- How the quotient is found does not matter: `Apart` is what is relied on.
def ratio (j : Nat) : Nat × Nat :=
  convergent (2 ^ 26) 64 (stepNum j) (stepDen j) (0, 1) (1, 0)

theorem apart_ratio : ∀ j ∈ List.range' 1 254, Apart j (ratio j).1 (ratio j).2 := by
  decide +kernel

/-- Two fractions that differ by less than a certain convergent allows are the same. -/
theorem mul_eq_of_near {num den p q D h gap : ℤ} (hden : 0 < den) (hq : 0 ≤ q) (hD : 0 < D)
    (hgap : |p * den - q * num| = gap) (hcert : 2 ^ 54 * gap + 5 * (q * num) ≤ 2 ^ 29 * num)
    (hh : h < 2 ^ 25) (hnear : 2 ^ 54 * |D * num - h * den| ≤ 5 * (D * num)) : D * p = h * q := by
  have hsize : D * num < 2 ^ 25 * den := by
    have hle : h * den ≤ (2 ^ 25 - 1) * den := by gcongr; omega
    have := le_abs_self (D * num - h * den)
    linarith
  have hsum : |D * p - h * q| * den ≤ D * gap + q * |D * num - h * den| := by
    calc |D * p - h * q| * den = |(D * p - h * q) * den| := by rw [abs_mul, abs_of_pos hden]
      _ = |D * (p * den - q * num) + q * (D * num - h * den)| := by congr 1; ring
      _ ≤ |D * (p * den - q * num)| + |q * (D * num - h * den)| := abs_add_le ..
      _ = D * gap + q * |D * num - h * den| := by
          rw [abs_mul, abs_mul, abs_of_pos hD, abs_of_nonneg hq, hgap]
  have hcross : |D * p - h * q| * den * 2 ^ 54 < 1 * den * 2 ^ 54 := by
    calc |D * p - h * q| * den * 2 ^ 54
        ≤ (D * gap + q * |D * num - h * den|) * 2 ^ 54 := by gcongr
      _ = D * (2 ^ 54 * gap) + q * (2 ^ 54 * |D * num - h * den|) := by ring
      _ ≤ D * (2 ^ 54 * gap) + q * (5 * (D * num)) := by gcongr
      _ = D * (2 ^ 54 * gap + 5 * (q * num)) := by ring
      _ ≤ D * (2 ^ 29 * num) := by gcongr
      _ = 2 ^ 29 * (D * num) := by ring
      _ < 2 ^ 29 * (2 ^ 25 * den) := by gcongr
      _ = 1 * den * 2 ^ 54 := by ring
  have hlt : |D * p - h * q| < 1 :=
    lt_of_mul_lt_mul_right (lt_of_mul_lt_mul_right hcross (by norm_num)) hden.le
  rw [Int.abs_lt_one_iff] at hlt
  omega

theorem stepDen_pos (j : Nat) : 0 < stepDen j := by
  unfold stepDen
  positivity

theorem abs_sub_eq_gap (j p q : Nat) : |(p * stepDen j - q * stepNum j : ℤ)| = gap j p q := by
  rw [Int.abs_eq_natAbs, gap]
  omega

section
variable {j p q D h : Nat} (ha : Apart j p q) (hD : 0 < D) (hh : h < 2 ^ 25)
  (hnear : 2 ^ 54 * |(D * stepNum j - h * stepDen j : ℤ)| ≤ 5 * (D * stepNum j))
include ha hD hh hnear

/-- The digits and the odd number of a decimal that is near a half are a multiple of `q` and `p`,
and the gap is small. -/
theorem Apart.exists_multiple :
    ∃ t, 0 < t ∧ D = q * t ∧ h = p * t ∧ 2 ^ 54 * gap j p q ≤ 5 * (q * stepNum j) := by
  have hcross : D * p = h * q := by
    exact_mod_cast mul_eq_of_near (by exact_mod_cast stepDen_pos j) q.cast_nonneg
      (by exact_mod_cast hD) (abs_sub_eq_gap j p q) (by exact_mod_cast ha.gap_le)
      (by exact_mod_cast hh) hnear
  obtain ⟨t, rfl⟩ : q ∣ D := ha.coprime.dvd_of_dvd_mul_right ⟨h, by rw [hcross]; ring⟩
  have hq : 0 < q := Nat.pos_of_mul_pos_right hD
  have ht : 0 < t := Nat.pos_of_mul_pos_left hD
  obtain rfl : h = p * t := Nat.eq_of_mul_eq_mul_right hq (by rw [← hcross]; ring)
  refine ⟨t, ht, rfl, rfl, Nat.le_of_mul_le_mul_right ?_ ht⟩
  have hscaled : |((q * t : ℕ) * stepNum j - (p * t : ℕ) * stepDen j : ℤ)| = gap j p q * t := by
    calc |((q * t : ℕ) * stepNum j - (p * t : ℕ) * stepDen j : ℤ)|
        = |-((p * stepDen j - q * stepNum j) * t : ℤ)| := by
          congr 1
          push_cast
          ring
      _ = gap j p q * t := by rw [abs_neg, abs_mul, Nat.abs_cast, abs_sub_eq_gap]
  rw [hscaled] at hnear
  have hbound : 2 ^ 54 * (gap j p q * t) ≤ 5 * (q * t * stepNum j) := by exact_mod_cast hnear
  linarith

/-- A decimal that is near a half is that half, or one of the near misses. -/
theorem Apart.eq_or_mem :
    D * stepNum j = h * stepDen j ∨ ⟨D, (finest j : ℤ) - 46, h, j⟩ ∈ nearMisses := by
  obtain ⟨t, ht, rfl, rfl, hsmall⟩ := ha.exists_multiple hD hh hnear
  rcases ha.far with hsame | hfar | hlarge | ⟨hlarge, hmem⟩
  · left
    have hzero : p * stepDen j = q * stepNum j := by
      unfold gap at hsame
      omega
    calc q * t * stepNum j = q * stepNum j * t := by ring
      _ = p * t * stepDen j := by rw [← hzero]; ring
  · omega
  · have := Nat.le_mul_of_pos_right p ht
    omega
  · obtain rfl : t = 1 := by
      by_contra hne
      have := Nat.mul_le_mul_left p (show 2 ≤ t by omega)
      omega
    rw [Nat.mul_one, Nat.mul_one]
    exact .inr hmem

end

namespace Neighbourhood

theorem quarters_finest (j : Nat) :
    quarters .single ((finest j : ℤ) - 46) * 10 ^ 46 = stepNum j := by
  rw [quarters_single, zpow_sub₀ (by norm_num), zpow_natCast, stepNum]
  push_cast
  field_simp
  norm_num

/-- Every grid with steps of `2 ^ j` quarters or more is counted from there. -/
theorem finest_le {j p q : Nat} (ha : Apart j p q) {exponent : ℤ}
    (hcoarse : 2 ^ j ≤ quarters .single exponent) : (finest j : ℤ) - 46 ≤ exponent := by
  have hfinest := quarters_finest j
  have hstep : (stepNum j : ℚ) < 10 * stepDen j := by exact_mod_cast ha.step_lt
  have hden : (stepDen j : ℚ) = 2 ^ j * 10 ^ 46 := by norm_num [stepDen]
  by_contra! hlt
  have hfiner := quarters_mono (f := .single) (Int.le_sub_one_of_lt hlt)
  have htenfold := quarters_succ .single ((finest j : ℤ) - 46 - 1)
  rw [sub_add_cancel] at htenfold
  linarith

end Neighbourhood

open Neighbourhood in
/-- A decimal on a grid that is not too fine is either a given half, or apart from it, or one of the
near misses. -/
theorem separated {j h D : Nat} {exponent : ℤ} (hj : j ∈ List.range' 1 254) (hD : 0 < D)
    (hh : h < 2 ^ 25) (hcoarse : 2 ^ j ≤ quarters .single exponent) :
    D * quarters .single exponent = h * 2 ^ j ∨
      5 / 2 ^ 54 * (D * quarters .single exponent) <
        |D * quarters .single exponent - h * 2 ^ j| ∨
      ⟨D, exponent, h, j⟩ ∈ nearMisses := by
  have hapart := apart_ratio j hj
  obtain ⟨i, rfl⟩ := Int.exists_add_of_le (finest_le hapart hcoarse)
  -- Both sides in the integer units of the convergent, the digits gone on with zeros.
  have hpoint : (D * quarters .single (finest j - 46 + i) : ℚ) * 10 ^ 46 =
      (D * 10 ^ i : ℕ) * stepNum j := by
    rw [← quarters_finest, quarters_single, quarters_single, zpow_add₀ (by norm_num), zpow_natCast]
    push_cast
    ring
  have hhalf : (h * 2 ^ j : ℚ) * 10 ^ 46 = h * stepDen j := by
    push_cast [stepDen]
    ring
  rcases le_or_gt |D * quarters .single (finest j - 46 + i) - h * 2 ^ j|
    (5 / 2 ^ 54 * (D * quarters .single (finest j - 46 + i))) with hnear | hfar
  · have hscaled : 2 ^ 54 * |((D * 10 ^ i : ℕ) * stepNum j - h * stepDen j : ℚ)| ≤
        5 * ((D * 10 ^ i : ℕ) * stepNum j) := by
      rw [← hpoint, ← hhalf, ← sub_mul, abs_mul, abs_of_pos (show (0 : ℚ) < 10 ^ 46 by norm_num)]
      linarith
    rcases hapart.eq_or_mem (D := D * 10 ^ i) (by positivity) hh
      (by
        rw [← Int.cast_le (R := ℚ)]
        push_cast at hscaled ⊢
        exact hscaled) with heq | hmem
    · refine .inl (mul_right_cancel₀ (show (10 ^ 46 : ℚ) ≠ 0 by norm_num) ?_)
      rw [hpoint, hhalf]
      exact_mod_cast heq
    · cases i with
      | zero => exact .inr (.inr (by simpa using hmem))
      | succ i =>
        rw [pow_succ, ← Nat.mul_assoc] at hmem
        simp only [nearMisses, List.mem_cons, List.not_mem_nil, or_false, NearMiss.mk.injEq] at hmem
        omega
  · exact .inr (.inl hfar)

end TextReveal.Number
