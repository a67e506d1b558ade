import TextReveal.Json.Numeral
import TextReveal.Proofs.Separating
/-!
Decimals as doubles, and doubles as singles. A decimal is read as a double with two roundings at
most; narrowed to a single that is the number whose shortest decimal was read.
-/
namespace TextReveal.Number

namespace Format

theorem binade_mul_le_one {f : Format} {k : Nat} (h : f.fractionBits + k ≤ f.deepest) :
    f.binade * 2 ^ k ≤ f.one :=
  (Nat.pow_add ..).ge.trans (Nat.pow_le_pow_right two_pos h)

theorem mul_one_eq (f : Format) (k : Nat) : 2 ^ k * f.one = 2 ^ (k + f.deepest) :=
  (Nat.pow_add ..).symm

theorem binade_mul_lt_infinite : 2002 * double.binade < double.infinite := by
  decide

end Format

namespace Binary

/-- Rounding a quotient of moderate size to a double. -/
theorem ofRatio_near_double (negative : Bool) {num den : Nat} (hden : 0 < den)
    (hlow : (1 / 2 ^ 200 : ℚ) ≤ num / den) (hhigh : (num / den : ℚ) < 2 ^ 250) :
    (ofRatio negative num den : Double).isFinite ∧
      |(ofRatio negative num den : Double).absolute - num / den| ≤ (num / den : ℚ) / 2 ^ 53 := by
  have hden' : (0 : ℚ) < den := by exact_mod_cast hden
  have hsmall : 1 * den ≤ num * 2 ^ 200 := by
    rw [div_le_div_iff₀ (by positivity) hden'] at hlow
    exact_mod_cast hlow
  have hlarge : num < 2 ^ 250 * den := by
    rw [div_lt_iff₀ hden'] at hhigh
    exact_mod_cast hhigh
  have hnear := ofRatio_near (f := .double) hden
    (calc Format.double.binade * den = Format.double.binade * (1 * den) := by rw [Nat.one_mul]
      _ ≤ Format.double.binade * (num * 2 ^ 200) := Nat.mul_le_mul_left _ hsmall
      _ = num * (Format.double.binade * 2 ^ 200) := Nat.mul_left_comm ..
      _ ≤ num * Format.double.one :=
          Nat.mul_le_mul_left _ (Format.binade_mul_le_one (by decide)))
    (calc num * Format.double.one < 2 ^ 250 * den * Format.double.one :=
          Nat.mul_lt_mul_of_pos_right hlarge Format.one_pos
      _ = 2 ^ 250 * Format.double.one * den := Nat.mul_right_comm ..
      _ = 2 ^ (250 + Format.double.deepest) * den := by rw [Format.mul_one_eq])
    (lt_of_le_of_lt (Nat.mul_le_mul_right _ (by decide)) Format.binade_mul_lt_infinite) negative
  have hbinade : (2 * (Format.double.binade : ℚ)) = 2 ^ 53 := by
    norm_num [Format.binade, Format.double, twoTo_eq]
  rwa [hbinade] at hnear

/-- A quotient that a double can be is not changed by rounding. -/
theorem ofRatio_exact_double (negative : Bool) {num den c k : Nat} (hden : 0 < den)
    (hc : c < 2 ^ 53) (hk : k ≤ 2000) (h : (num / den : ℚ) = c * 2 ^ k / Format.double.one) :
    (ofRatio negative num den : Double).isFinite ∧
      (ofRatio negative num den : Double).absolute = num / den := by
  have hone : (0 : ℚ) < Format.double.one := by exact_mod_cast Format.one_pos
  have hden' : (0 : ℚ) < den := by exact_mod_cast hden
  have hcross : num * Format.double.one = c * 2 ^ k * den := by
    rw [div_eq_div_iff hden'.ne' hone.ne'] at h
    exact_mod_cast h
  have hroom : (k + 2) * Format.double.binade ≤ Format.double.infinite :=
    (Nat.mul_le_mul_right _ (by omega)).trans Format.binade_mul_lt_infinite.le
  obtain ⟨hfinite, hnum⟩ := ofRatio_exact (f := .double) negative hden hc hroom hcross
  refine ⟨hfinite, ?_⟩
  rw [absolute, hnum, h]
  push_cast
  rfl

theorem one_double : (Format.double.one : ℚ) = 2 ^ Format.double.deepest := by
  rw [Format.one, twoTo_eq, Nat.cast_pow, Nat.cast_ofNat]

theorem ofNat_double {n : Nat} (hn : n < 2 ^ 53) :
    (ofNat n : Double).isFinite ∧ (ofNat n : Double).absolute = n := by
  have hvalue : (n / (1 : ℕ) : ℚ) = n * 2 ^ Format.double.deepest / Format.double.one := by
    rw [one_double, Nat.cast_one, div_one, mul_div_cancel_right₀ _ (by positivity)]
  obtain ⟨hfinite, heq⟩ := ofRatio_exact_double false one_pos hn (by decide) hvalue
  exact ⟨hfinite, by rw [ofNat, heq, Nat.cast_one, div_one]⟩

end Binary
end TextReveal.Number

namespace TextReveal.Json
open Number Binary

theorem powerOfTen_near {e : Nat} (he : e ≤ 50) :
    |(powerOfTen e).absolute - 10 ^ e| ≤ (10 ^ e : ℚ) / 2 ^ 53 := by
  have hlow : (1 : ℚ) ≤ 10 ^ e := one_le_pow₀ (by norm_num)
  have hhigh : (10 : ℚ) ^ e ≤ 10 ^ 50 := pow_le_pow_right₀ (by norm_num) he
  have hvalue : ((tenTo e : ℕ) / (1 : ℕ) : ℚ) = 10 ^ e := by simp [tenTo_eq]
  have hnear : _ ∧ |(ofNat (tenTo e) : Double).absolute - (tenTo e : ℕ) / (1 : ℕ)| ≤ _ :=
    ofRatio_near_double false one_pos (by rw [hvalue]; exact le_trans (by norm_num) hlow)
      (by rw [hvalue]; exact lt_of_le_of_lt hhigh (by norm_num))
  rw [hvalue] at hnear
  exact hnear.2

theorem powerOfTen_bounds {e : Nat} (he : e ≤ 50) : (8 / 9 * 10 ^ e : ℚ) ≤ (powerOfTen e).absolute ∧
    1 / 2 ≤ (powerOfTen e).absolute ∧ (powerOfTen e).absolute ≤ 2 * 10 ^ 50 := by
  have hlow : (1 : ℚ) ≤ 10 ^ e := one_le_pow₀ (by norm_num)
  have hhigh : (10 : ℚ) ^ e ≤ 10 ^ 50 := pow_le_pow_right₀ (by norm_num) he
  obtain ⟨hbelow, habove⟩ := abs_le.mp (powerOfTen_near he)
  refine ⟨?_, ?_, ?_⟩ <;> linarith

theorem powerOfTen_exact {e : Nat} (he : e ≤ 22) : (powerOfTen e).absolute = 10 ^ e := by
  have hbits : 5 ^ e < 2 ^ 53 :=
    lt_of_le_of_lt (Nat.pow_le_pow_right (by norm_num) he) (by norm_num)
  have hdeep : e + Format.double.deepest ≤ 2000 := by
    have : Format.double.deepest = 1074 := rfl
    omega
  have hvalue : ((tenTo e : ℕ) / (1 : ℕ) : ℚ) =
      (5 ^ e : ℕ) * 2 ^ (e + Format.double.deepest) / Format.double.one := by
    rw [one_double, pow_add, ← mul_assoc, mul_div_cancel_right₀ _ (by positivity)]
    push_cast [tenTo_eq]
    rw [div_one, ← mul_pow]
    norm_num
  have heq := (ofRatio_exact_double false one_pos hbits hdeep hvalue).2
  rw [hvalue] at heq
  rw [powerOfTen, ofNat, heq, ← hvalue]
  simp [tenTo_eq]

/-- What two roundings can do, the second to what the first has left. -/
theorem near_trans {a b y : ℚ} (hb : 0 ≤ b) (hab : |a - b| ≤ 9 / 8 * b / 2 ^ 53)
    (hya : |y - a| ≤ a / 2 ^ 53) : |y - b| ≤ 5 / 2 ^ 54 * b := by
  rw [abs_le] at *
  constructor <;> linarith

theorem absolute_scaleUp (x factor : Double) : ((x.numerator * factor.numerator : ℕ) : ℚ) /
    (Format.double.one * Format.double.one : ℕ) = x.absolute * factor.absolute := by
  rw [absolute, absolute, div_mul_div_comm]
  push_cast
  rfl

theorem absolute_scaleDown (x divisor : Double) :
    (x.numerator : ℚ) / divisor.numerator = x.absolute / divisor.absolute := by
  have hone : (Format.double.one : ℚ) ≠ 0 := by exact_mod_cast Format.one_pos.ne'
  rw [absolute, absolute, div_div_div_cancel_right₀ hone]

/-- A double that digits and a power of ten round to, in two steps: it is close to their value, and
it is their value if a double can be. -/
structure Approximates (y : Double) (value : ℚ) (exactly : Prop) : Prop where
  isFinite : y.isFinite
  near : |y.absolute - value| ≤ 5 / 2 ^ 54 * value
  exact : ∀ c k : ℕ, exactly → c < 2 ^ 53 → k ≤ 2000 →
    value = c * 2 ^ k / Format.double.one → y.absolute = value

section
variable {n e : Nat} (hn : 0 < n) (hn' : n < 2 ^ 53) (he : e ≤ 50)
include hn hn' he

theorem approximates_scaleUp : Approximates
    ((ofNat n : Double).scaleUp (powerOfTen e)) (n * 10 ^ e) (e ≤ 22) := by
  have hone : (1 : ℚ) ≤ n := by exact_mod_cast hn
  have hmany : (n : ℚ) ≤ 2 ^ 53 := by exact_mod_cast hn'.le
  obtain ⟨-, hlow, hhigh⟩ := powerOfTen_bounds he
  have hden : 0 < Format.double.one * Format.double.one := Nat.mul_pos Format.one_pos Format.one_pos
  have hvalue := absolute_scaleUp (.ofNat n) (powerOfTen e)
  rw [(ofNat_double hn').2] at hvalue
  obtain ⟨hfinite, hnear⟩ := ofRatio_near_double (ofNat n : Double).negative hden
    (by
      rw [hvalue]
      calc (1 / 2 ^ 200 : ℚ) ≤ 1 * (1 / 2) := by norm_num
        _ ≤ n * (powerOfTen e).absolute := by gcongr)
    (by
      rw [hvalue]
      calc (n * (powerOfTen e).absolute : ℚ) ≤ 2 ^ 53 * (2 * 10 ^ 50) := by gcongr
        _ < 2 ^ 250 := by norm_num)
  rw [hvalue] at hnear
  refine ⟨hfinite, near_trans (by positivity) ?_ hnear, fun c k hexactly hc hk heq => ?_⟩
  · calc |(n * (powerOfTen e).absolute - n * 10 ^ e : ℚ)|
        = n * |(powerOfTen e).absolute - 10 ^ e| := by rw [← mul_sub, abs_mul, Nat.abs_cast]
      _ ≤ n * (10 ^ e / 2 ^ 53) := by gcongr; exact powerOfTen_near he
      _ = 1 * (n * 10 ^ e) / 2 ^ 53 := by ring
      _ ≤ 9 / 8 * (n * 10 ^ e) / 2 ^ 53 := by gcongr; norm_num
  · rw [powerOfTen_exact hexactly] at hvalue
    rw [← hvalue]
    exact (ofRatio_exact_double _ hden hc hk (hvalue.trans heq)).2

theorem approximates_scaleDown : Approximates
    ((ofNat n : Double).scaleDown (powerOfTen e)) (n / 10 ^ e) (e ≤ 22) := by
  have hone : (1 : ℚ) ≤ n := by exact_mod_cast hn
  have hmany : (n : ℚ) ≤ 2 ^ 53 := by exact_mod_cast hn'.le
  obtain ⟨hclose, hlow, hhigh⟩ := powerOfTen_bounds he
  have hpos : 0 < (powerOfTen e).absolute := by linarith
  have hden : 0 < (powerOfTen e).numerator := by
    by_contra! h
    rw [absolute, Nat.le_zero.mp h, Nat.cast_zero, zero_div] at hpos
    exact hpos.false
  have hvalue := absolute_scaleDown (.ofNat n) (powerOfTen e)
  rw [(ofNat_double hn').2] at hvalue
  obtain ⟨hfinite, hnear⟩ := ofRatio_near_double (ofNat n : Double).negative hden
    (by
      rw [hvalue, le_div_iff₀ hpos]
      calc (1 / 2 ^ 200 * (powerOfTen e).absolute : ℚ) ≤ 1 / 2 ^ 200 * (2 * 10 ^ 50) := by gcongr
        _ ≤ 1 := by norm_num
        _ ≤ n := hone)
    (by
      rw [hvalue, div_lt_iff₀ hpos]
      calc (n : ℚ) ≤ 2 ^ 53 := hmany
        _ < 2 ^ 250 * (1 / 2) := by norm_num
        _ ≤ 2 ^ 250 * (powerOfTen e).absolute := by gcongr)
  rw [hvalue] at hnear
  -- Two errors add up: that of the power of ten, and that of rounding the quotient by it.
  refine ⟨hfinite, near_trans (by positivity) ?_ hnear, fun c k hexactly hc hk heq => ?_⟩
  · calc |(n / (powerOfTen e).absolute - n / 10 ^ e : ℚ)|
        = n / (powerOfTen e).absolute / 10 ^ e * |(powerOfTen e).absolute - 10 ^ e| := by
          have hsplit : (n / (powerOfTen e).absolute - n / 10 ^ e : ℚ) =
              -(n / (powerOfTen e).absolute / 10 ^ e * ((powerOfTen e).absolute - 10 ^ e)) := by
            field_simp
            ring
          rw [hsplit, abs_neg, abs_mul, abs_of_pos (by positivity)]
      _ ≤ n / (powerOfTen e).absolute / 10 ^ e * (10 ^ e / 2 ^ 53) := by
          gcongr
          exact powerOfTen_near he
      _ = n / (powerOfTen e).absolute / 2 ^ 53 := by field_simp
      _ ≤ n / (8 / 9 * 10 ^ e) / 2 ^ 53 := by gcongr
      _ = 9 / 8 * (n / 10 ^ e) / 2 ^ 53 := by field_simp
  · rw [powerOfTen_exact hexactly] at hvalue
    rw [← hvalue]
    exact (ofRatio_exact_double _ hden hc hk (hvalue.trans heq)).2

end

/-- Digits times a power of ten, as a double. -/
theorem shift_spec {n : Nat} {p : ℤ} (hn : 0 < n) (hn' : n < 2 ^ 53) (hp : p.natAbs ≤ 50) :
    ∃ y, shift (.ofNat n) p = .ok y ∧ Approximates y (n * 10 ^ p) (p.natAbs ≤ 22) := by
  rw [shift, if_pos (by omega)]
  by_cases hsign : 0 ≤ p
  · obtain ⟨e, rfl⟩ := Int.eq_ofNat_of_zero_le hsign
    have hy := approximates_scaleUp hn hn' hp
    rw [if_pos hsign]
    exact ⟨_, if_pos hy.isFinite, by simpa using hy⟩
  · obtain ⟨e, rfl⟩ : ∃ e : Nat, p = -e := ⟨(-p).toNat, by omega⟩
    rw [Int.natAbs_neg] at hp ⊢
    rw [if_neg hsign, zpow_neg, ← div_eq_mul_inv]
    exact ⟨_, rfl, by simpa using approximates_scaleDown hn hn' hp⟩

end TextReveal.Json
