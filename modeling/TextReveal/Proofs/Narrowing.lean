import TextReveal.Proofs.Converting
/-!
Doubles narrowed to singles. The double that the shortest decimal of a single is read as lies on
the same side as the decimal of either end of the single's neighbourhood, and so rounds to it.
-/
namespace TextReveal.Number
open Neighbourhood Json

/-- Against `e`, `y` compares as `r` does. -/
structure KeepsSide (e r y : ℚ) : Prop where
  below : r < e → y < e
  same : r = e → y = e
  above : e < r → e < y

theorem KeepsSide.of_lt {e r y : ℚ} (hr : r < e) (hy : y < e) : KeepsSide e r y :=
  ⟨fun _ => hy, fun h => absurd h hr.ne, fun h => absurd h hr.not_gt⟩

theorem KeepsSide.of_gt {e r y : ℚ} (hr : e < r) (hy : e < y) : KeepsSide e r y :=
  ⟨fun h => absurd h hr.not_gt, fun h => absurd h hr.ne', fun _ => hy⟩

theorem KeepsSide.of_far {e r y : ℚ} (hnear : |y - r| ≤ 5 / 2 ^ 54 * r)
    (hfar : 5 / 2 ^ 54 * r < |r - e|) : KeepsSide e r y := by
  obtain ⟨hlow, hhigh⟩ := abs_le.mp hnear
  refine ⟨fun h => ?_, fun h => ?_, fun h => ?_⟩
  · rw [abs_of_neg (by linarith)] at hfar
    linarith
  · rw [h, sub_self, abs_zero] at hfar
    rw [h] at hnear
    linarith [abs_nonneg (y - e)]
  · rw [abs_of_pos (by linarith)] at hfar
    linarith

theorem KeepsSide.le {e r y : ℚ} (h : KeepsSide e r y) (hle : e ≤ r) : e ≤ y :=
  hle.lt_or_eq.elim (fun hlt => (h.above hlt).le) fun heq => (h.same heq.symm).ge

theorem KeepsSide.ge {e r y : ℚ} (h : KeepsSide e r y) (hle : r ≤ e) : y ≤ e :=
  hle.lt_or_eq.elim (fun hlt => (h.below hlt).le) fun heq => (h.same heq).le

theorem KeepsSide.eq {e r y : ℚ} (h : KeepsSide e r y) (heq : y = e) : r = e := by
  rcases lt_trichotomy r e with hlt | hsame | hlt
  · exact absurd heq (h.below hlt).ne
  · exact hsame
  · exact absurd heq (h.above hlt).ne'

/-- A number halfway between two singles, in quarters of the smallest, and the way to either. -/
def IsHalf (half width : Nat) : Prop :=
  ∃ h j, j ∈ List.range' 1 254 ∧ h < 2 ^ 25 ∧ half = h * 2 ^ j ∧ width = 2 ^ j

theorem IsHalf.le {half width : Nat} (h : IsHalf half width) : (half : ℚ) ≤ 2 ^ 25 * width := by
  obtain ⟨h, j, -, hh, rfl, rfl⟩ := h
  exact_mod_cast Nat.mul_le_mul_right _ hh.le

theorem IsHalf.width_pos {half width : Nat} (h : IsHalf half width) : (0 : ℚ) < width := by
  obtain ⟨h, j, -, -, -, rfl⟩ := h
  exact_mod_cast Nat.two_pow_pos j

section
variable {x : Single} (hx : x.isFinite) (hpos : 0 < x.magnitude)
include hx hpos

theorem exists_isHalf_high :
    ∃ width, IsHalf x.neighbourhood.high width ∧
      x.neighbourhood.high = x.neighbourhood.centre + width := by
  obtain ⟨m, k, hm, hk, -, hhigh, hwidth⟩ := Binary.exists_high_single hx hpos
  exact ⟨2 ^ k, ⟨2 * m + 1, k, by simp; omega, by omega, hhigh, rfl⟩, hwidth⟩

theorem exists_isHalf_low :
    ∃ width, IsHalf x.neighbourhood.low width ∧
      x.neighbourhood.low + width = x.neighbourhood.centre := by
  have hm := Format.single.significand_lt x.magnitude
  have hm' := Format.single.significand_pos hpos
  have hk := Format.scale_single_le (by simpa [Binary.isFinite] using hx)
  have hbinade : Format.single.binade = 2 ^ 23 := rfl
  simp only [Binary.neighbourhood, twoTo_eq]
  generalize Format.single.significand x.magnitude = m at *
  generalize Format.single.scale x.magnitude = k at *
  by_cases hleast : m = Format.single.binade ∧ 0 < k
  · rw [if_pos hleast]
    refine ⟨2 ^ k, ⟨4 * m - 1, k, by simp; omega, by omega, rfl, rfl⟩, ?_⟩
    rw [← Nat.succ_mul, Nat.succ_eq_add_one, Nat.sub_add_cancel (by omega)]
  · rw [if_neg hleast]
    refine ⟨2 ^ (k + 1), ⟨2 * m - 1, k + 1, by simp; omega, by omega, ?_, rfl⟩, ?_⟩
    · rw [pow_succ', ← Nat.mul_assoc, show 4 * m - 2 = (2 * m - 1) * 2 by omega]
    · rw [pow_succ', ← Nat.add_mul, Nat.sub_add_cancel (by omega)]

end

/-- How a decimal is spelled: its digits may go on with zeros if none of them is a fraction. -/
structure Decimal.IsSpelled (d : Decimal) (n : Nat) (p : ℤ) : Prop where
  value : (n * 10 ^ p : ℚ) = d.digits * 10 ^ d.exponent
  literal : d.exponent < 0 → n = d.digits ∧ p = d.exponent
  pos : 0 < n
  few : n < 2 ^ 53
  moderate : p.natAbs ≤ 50

theorem Decimal.IsSpelled.digits_pos {d : Decimal} {n : Nat} {p : ℤ} (h : d.IsSpelled n p) :
    0 < d.digits := by
  have hpos : (0 : ℚ) < n := by exact_mod_cast h.pos
  by_contra! hzero
  have hvalue := h.value
  rw [Nat.le_zero.mp hzero, Nat.cast_zero, zero_mul] at hvalue
  exact (mul_pos hpos (zpow_pos (by norm_num) p)).ne' hvalue

theorem le_of_pow_dvd {a e k : Nat} (ha : 0 < a) (ha' : a < 2 ^ 53) (h : 5 ^ e ∣ a * 2 ^ k) :
    e ≤ 22 := by
  have hdvd : 5 ^ e ∣ a := (Nat.Coprime.pow e k (by decide)).dvd_of_dvd_mul_right h
  by_contra! hlarge
  have := Nat.le_of_dvd ha hdvd
  have := Nat.pow_le_pow_right (show 0 < 5 by norm_num) hlarge
  omega

/-- A decimal that is a half has no large power of ten. -/
theorem natAbs_le_of_eq_half {n h j : Nat} {p : ℤ} (hn : 0 < n) (hn' : n < 2 ^ 53)
    (hh : h < 2 ^ 25) (heq : (n * 10 ^ p * 2 ^ 151 : ℚ) = h * 2 ^ j) : p.natAbs ≤ 22 := by
  have hten (e : Nat) : 10 ^ e = 5 ^ e * 2 ^ e := Nat.mul_pow 5 2 e
  obtain ⟨e, rfl | rfl⟩ := p.eq_nat_or_neg
  · have hnat : n * 10 ^ e * 2 ^ 151 = h * 2 ^ j := by exact_mod_cast heq
    have hpos : 0 < h * 2 ^ j := hnat ▸ by positivity
    rw [Int.natAbs_natCast]
    refine le_of_pow_dvd (k := j) (Nat.pos_of_mul_pos_right hpos) (by omega)
      ⟨n * 2 ^ e * 2 ^ 151, ?_⟩
    rw [← hnat, hten]
    ring
  · have hnat : n * 2 ^ 151 = 10 ^ e * h * 2 ^ j := by
      rw [zpow_neg, zpow_natCast] at heq
      field_simp at heq
      exact_mod_cast heq
    rw [Int.natAbs_neg, Int.natAbs_natCast]
    refine le_of_pow_dvd (k := 151) hn hn' ⟨2 ^ e * h * 2 ^ j, ?_⟩
    rw [hnat, hten]
    ring

/-- The near misses, and the doubles they are read as, against their halves. -/
theorem nearMisses_compare : ∀ miss ∈ nearMisses,
    let e := miss.exponent.natAbs
    let y := (Binary.ofNat miss.digits : Double).scaleDown (powerOfTen e)
    let half := miss.odd * 2 ^ miss.power
    miss.exponent < 0 ∧ e ≤ 308 ∧
      (miss.digits * 2 ^ 151 < half * 10 ^ e ∧
          y.numerator * 2 ^ 151 < half * Format.double.one ∨
        half * 10 ^ e < miss.digits * 2 ^ 151 ∧
          half * Format.double.one < y.numerator * 2 ^ 151) := by
  decide +kernel

theorem KeepsSide.of_miss {D h j : Nat} {exponent : ℤ} {y : Double}
    (hmiss : ⟨D, exponent, h, j⟩ ∈ nearMisses) (hy : shift (.ofNat D) exponent = .ok y) :
    KeepsSide (h * 2 ^ j) (D * quarters .single exponent) (y.absolute * 2 ^ 151) := by
  obtain ⟨hneg, hmoderate, hcompare⟩ := nearMisses_compare _ hmiss
  dsimp only at hneg hmoderate hcompare
  rw [shift, if_pos hmoderate, if_neg hneg.not_ge, Except.ok.injEq] at hy
  rw [hy] at hcompare
  obtain ⟨e, rfl⟩ : ∃ e : Nat, exponent = -e := ⟨(-exponent).toNat, by omega⟩
  simp only [Int.natAbs_neg, Int.natAbs_natCast] at hcompare
  have hone : (0 : ℚ) < Format.double.one := by exact_mod_cast Format.one_pos
  have hpoint : (D * quarters .single (-e) : ℚ) = D * 2 ^ 151 / 10 ^ e := by
    rw [quarters_single, zpow_neg, zpow_natCast]
    field_simp
  have hread : y.absolute * 2 ^ 151 = y.numerator * 2 ^ 151 / Format.double.one := by
    rw [Binary.absolute, div_mul_eq_mul_div]
  rw [hpoint, hread]
  rcases hcompare with ⟨hpoint, hread⟩ | ⟨hpoint, hread⟩
  · refine .of_lt ?_ ?_
    · rw [div_lt_iff₀ (by positivity)]
      exact_mod_cast hpoint
    · rw [div_lt_iff₀ hone]
      exact_mod_cast hread
  · refine .of_gt ?_ ?_
    · rw [lt_div_iff₀ (by positivity)]
      exact_mod_cast hpoint
    · rw [lt_div_iff₀ hone]
      exact_mod_cast hread

section
variable {d : Decimal} {n : Nat} {p : ℤ} {y : Double} (hd : d.IsSpelled n p)
  (hy : shift (.ofNat n) p = .ok y)
include hd hy

theorem approximates_of_isSpelled : Approximates y (n * 10 ^ p) (p.natAbs ≤ 22) := by
  obtain ⟨y', hy', happrox⟩ := shift_spec hd.pos hd.few hd.moderate
  rw [hy, Except.ok.injEq] at hy'
  rwa [hy']

theorem near_of_isSpelled : |y.absolute * 2 ^ 151 - d.digits * quarters .single d.exponent| ≤
    5 / 2 ^ 54 * (d.digits * quarters .single d.exponent) := by
  have hnear := (approximates_of_isSpelled hd hy).near
  rw [quarters_single, ← mul_assoc, ← hd.value, ← sub_mul, abs_mul,
    abs_of_pos (show (0 : ℚ) < 2 ^ 151 by norm_num), ← mul_assoc]
  gcongr

theorem KeepsSide.of_isHalf {half width : Nat} (hhalf : IsHalf half width)
    (hcoarse : width ≤ quarters .single d.exponent) :
    KeepsSide half (d.digits * quarters .single d.exponent) (y.absolute * 2 ^ 151) := by
  have happrox := approximates_of_isSpelled hd hy
  obtain ⟨h, j, hj, hh, rfl, rfl⟩ := hhalf
  have hpoint : (d.digits * quarters .single d.exponent : ℚ) = n * 10 ^ p * 2 ^ 151 := by
    rw [quarters_single, hd.value, mul_assoc]
  have hdigits := hd.digits_pos
  push_cast at hcoarse ⊢
  rcases separated hj hdigits hh hcoarse with heq | hfar | hmiss
  · have hfew := natAbs_le_of_eq_half hd.pos hd.few hh (hpoint ▸ heq)
    have hone : (Format.double.one : ℚ) = 2 ^ 923 * 2 ^ 151 := by
      rw [Binary.one_double, show Format.double.deepest = 923 + 151 from rfl, pow_add]
    have hvalue : (n * 10 ^ p : ℚ) = h * 2 ^ (j + 923) / Format.double.one := by
      have hne : (Format.double.one : ℚ) ≠ 0 := by exact_mod_cast Format.one_pos.ne'
      rw [eq_div_iff hne, hone, mul_comm ((2 : ℚ) ^ 923), ← mul_assoc, ← hpoint, heq,
        pow_add, mul_assoc]
    have hread := happrox.exact h (j + 923) hfew (by omega)
      (by have := List.mem_range'_1.mp hj; omega) hvalue
    have hsame : y.absolute * 2 ^ 151 = h * 2 ^ j := by rw [hread, ← hpoint, heq]
    rw [heq, hsame]
    exact ⟨id, id, id⟩
  · exact .of_far (near_of_isSpelled hd hy) hfar
  · obtain ⟨rfl, rfl⟩ := hd.literal (nearMisses_compare _ hmiss).1
    exact .of_miss hmiss hy

section
variable {s : Neighbourhood} (hsuits : s.Suits (quarters .single d.exponent)
  (d.digits * quarters .single d.exponent)) {width : Nat}
include hsuits

/-- On a finer grid the point is half the way from the end at least. -/
theorem KeepsSide.of_isHalf_low (hhalf : IsHalf s.low width) (hwidth : s.low + width = s.centre) :
    KeepsSide s.low (d.digits * quarters .single d.exponent) (y.absolute * 2 ^ 151) := by
  rcases le_or_gt (width : ℚ) (quarters .single d.exponent) with hcoarse | hfine
  · exact .of_isHalf hd hy hhalf hcoarse
  · have hcentre : (s.low + width : ℚ) = s.centre := by exact_mod_cast hwidth
    have hinside := hsuits.above (by linarith)
    obtain ⟨hnear, -⟩ := abs_le.mp (near_of_isSpelled hd hy)
    have hsize := hhalf.le
    have hpos := hhalf.width_pos
    exact .of_gt (by linarith) (by linarith)

theorem KeepsSide.of_isHalf_high (hhalf : IsHalf s.high width)
    (hwidth : s.high = s.centre + width) :
    KeepsSide s.high (d.digits * quarters .single d.exponent) (y.absolute * 2 ^ 151) := by
  rcases le_or_gt (width : ℚ) (quarters .single d.exponent) with hcoarse | hfine
  · exact .of_isHalf hd hy hhalf hcoarse
  · have hcentre : (s.high : ℚ) = s.centre + width := by exact_mod_cast hwidth
    have hinside := hsuits.below (by linarith)
    obtain ⟨-, hnear⟩ := abs_le.mp (near_of_isSpelled hd hy)
    have hsize := hhalf.le
    have hpos := hhalf.width_pos
    exact .of_lt (by linarith) (by linarith)

end

end

/-- The double that a shortest decimal is read as rounds to its single. -/
theorem Binary.convert_of_shortest {x : Single} (hx : x.isFinite) (hpos : 0 < x.magnitude)
    {halfUp : Bool} {n : Nat} {p : ℤ} (hd : (x.shortest halfUp).IsSpelled n p) {y : Double}
    (hy : shift (.ofNat n) p = .ok y) : (signed x.negative y).convert = x := by
  obtain ⟨width, hlow, hwidth⟩ := exists_isHalf_low hx hpos
  obtain ⟨width', hhigh, hwidth'⟩ := exists_isHalf_high hx hpos
  obtain ⟨hsuits, -⟩ := shortest_suits hx hpos halfUp
  have hbelow := KeepsSide.of_isHalf_low hd hy hsuits hlow hwidth
  have habove := KeepsSide.of_isHalf_high hd hy hsuits hhigh hwidth'
  have hone : (0 : ℚ) < Format.double.one := by exact_mod_cast Format.one_pos
  have hpoint : y.absolute * 2 ^ 151 * Format.double.one =
      (4 * (y.numerator * Format.single.one) : ℕ) := by
    rw [Binary.absolute, mul_right_comm, div_mul_cancel₀ _ hone.ne', ← four_mul_one_single]
    push_cast
    ring
  -- What the decimal is read as stays between both ends, and off an end that is not contained.
  have hround : Format.single.round y.numerator Format.double.one = x.magnitude := by
    refine round_of_contains Format.one_pos hx (contains_iff.mpr ⟨?_, ?_, fun hend => ?_⟩)
    · have hle := mul_le_mul_of_nonneg_right (hbelow.le hsuits.low_le) hone.le
      rw [hpoint] at hle
      exact_mod_cast hle
    · have hle := mul_le_mul_of_nonneg_right (habove.ge hsuits.le_high) hone.le
      rw [hpoint] at hle
      exact_mod_cast hle
    · refine hsuits.ends (hend.imp (fun h => hbelow.eq ?_) fun h => habove.eq ?_) <;>
      · refine mul_right_cancel₀ hone.ne' ?_
        rw [hpoint, h, Nat.cast_mul]
  have hfinite : (signed x.negative y).isFinite := (approximates_of_isSpelled hd hy).isFinite
  rw [convert, if_pos hfinite]
  exact congrArg (Binary.mk x.negative) hround

end TextReveal.Number
