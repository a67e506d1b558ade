import Mathlib.Data.Rat.Floor
import Mathlib.Tactic.Linarith
import Mathlib.Tactic.Ring
import Mathlib.Tactic.FieldSimp
import TextReveal.Number.Shortest
/-!
Rounding. The neighbourhood of a number is what rounds to it; a number with few enough bits rounds
to itself, and any other to one that is off by half a unit in its last place at most.
-/
namespace TextReveal.Number

theorem twoTo_eq (n : Nat) : twoTo n = 2 ^ n := rfl

theorem tenTo_eq (n : Nat) : tenTo n = 10 ^ n := rfl

/-- A quotient within half a unit of a whole number, and on the bound only if that is even. -/
theorem roundDiv_eq {num den q : Nat} (hden : 0 < den) (hlow : 2 * (q * den) ≤ 2 * num + den)
    (hhigh : 2 * num ≤ 2 * (q * den) + den)
    (htie : 2 * (q * den) = 2 * num + den ∨ 2 * num = 2 * (q * den) + den → q % 2 = 0) :
    roundDiv num den = q := by
  have hdiv := Nat.div_add_mod' num den
  have hmod := Nat.mod_lt num hden
  unfold roundDiv
  generalize num / den = a at hdiv ⊢
  generalize num % den = r at hdiv hmod ⊢
  have hcases : q = a ∨ q = a + 1 := by
    rcases lt_trichotomy q a with h | h | h
    · have := Nat.mul_le_mul_right den (Nat.succ_le_of_lt h)
      rw [Nat.succ_mul] at this
      omega
    · exact .inl h
    · rcases Nat.lt_or_ge q (a + 2) with h' | h'
      · exact .inr (by omega)
      · have := Nat.mul_le_mul_right den h'
        rw [Nat.add_mul] at this
        omega
  rcases hcases with rfl | rfl
  · rw [if_neg]
    simp only [Bool.or_eq_true, decide_eq_true_eq, Bool.and_eq_true, beq_iff_eq]
    omega
  · rw [Nat.add_mul, Nat.one_mul] at hlow hhigh htie
    rw [if_pos]
    simp only [Bool.or_eq_true, decide_eq_true_eq, Bool.and_eq_true, beq_iff_eq]
    omega

/-- Rounding a quotient moves it by half a unit at most. -/
theorem roundDiv_near (num : Nat) {den : Nat} (hden : 0 < den) :
    2 * (roundDiv num den * den) ≤ 2 * num + den ∧
      2 * num ≤ 2 * (roundDiv num den * den) + den := by
  have hdiv := Nat.div_add_mod' num den
  have hmod := Nat.mod_lt num hden
  unfold roundDiv
  generalize num / den = a at hdiv ⊢
  generalize num % den = r at hdiv hmod ⊢
  simp only [Bool.or_eq_true, decide_eq_true_eq, Bool.and_eq_true, beq_iff_eq]
  split
  · rw [Nat.add_mul]
    omega
  · omega

namespace Format
variable {f : Format}

theorem binade_pos : 0 < f.binade := Nat.two_pow_pos _

theorem one_pos : 0 < f.one := Nat.two_pow_pos _

theorem scale_mul_add_significand (magnitude : Nat) :
    f.scale magnitude * f.binade + f.significand magnitude = magnitude := by
  have hdiv := Nat.div_add_mod' magnitude f.binade
  have hle : f.scale magnitude * f.binade ≤ magnitude / f.binade * f.binade :=
    Nat.mul_le_mul_right _ (Nat.sub_le ..)
  rw [significand]
  omega

theorem significand_lt (magnitude : Nat) : f.significand magnitude < 2 * f.binade := by
  have hsum := f.scale_mul_add_significand magnitude
  have hdiv := Nat.div_add_mod' magnitude f.binade
  have hmod := Nat.mod_lt magnitude f.binade_pos
  unfold scale at hsum
  cases hq : magnitude / f.binade with
  | zero =>
    rw [hq] at hsum hdiv
    omega
  | succ q =>
    rw [hq, Nat.add_sub_cancel] at hsum
    rw [hq, Nat.add_mul] at hdiv
    omega

theorem binade_le_significand {magnitude : Nat} (h : 0 < f.scale magnitude) :
    f.binade ≤ f.significand magnitude := by
  have hsum := f.scale_mul_add_significand magnitude
  have hdiv := Nat.div_add_mod' magnitude f.binade
  unfold scale at hsum h
  obtain ⟨q, hq⟩ : ∃ q, magnitude / f.binade = q + 1 := ⟨_, (Nat.sub_add_cancel (by omega)).symm⟩
  rw [hq, Nat.add_sub_cancel] at hsum
  rw [hq, Nat.add_mul] at hdiv
  omega

/-- Every scale and significand are those of one magnitude. -/
theorem scale_eq {scale significand : Nat} (hlow : f.binade ≤ significand ∨ scale = 0)
    (hhigh : significand < 2 * f.binade) :
    f.scale (scale * f.binade + significand) = scale := by
  have hdiv : (scale * f.binade + significand) / f.binade = scale + significand / f.binade := by
    rw [Nat.add_comm, Nat.add_mul_div_right _ _ f.binade_pos, Nat.add_comm]
  have hlt : significand / f.binade < 2 := (Nat.div_lt_iff_lt_mul f.binade_pos).mpr hhigh
  rw [Format.scale, hdiv]
  rcases hlow with h | rfl
  · have : 0 < significand / f.binade := Nat.div_pos h f.binade_pos
    omega
  · omega

end Format

namespace Binary
variable {f : Format}

/-- The numerator of a number given by its scale and significand. A significand of one bit more than
there is room for counts as well: it runs over into the next scale. -/
theorem numerator_eq {negative : Bool} {scale significand : Nat}
    (hlow : f.binade ≤ significand ∨ scale = 0) (hhigh : significand ≤ 2 * f.binade) :
    (⟨negative, scale * f.binade + significand⟩ : Binary f).numerator =
      significand * 2 ^ scale := by
  rcases Nat.lt_or_eq_of_le hhigh with hlt | rfl
  · simp only [numerator, Format.significand, Format.scale_eq hlow hlt, Nat.add_sub_cancel_left,
      twoTo_eq]
  · have hnext : scale * f.binade + 2 * f.binade = (scale + 1) * f.binade + f.binade := by ring
    have hscale : f.scale ((scale + 1) * f.binade + f.binade) = scale + 1 :=
      Format.scale_eq (.inl le_rfl) (by have := f.binade_pos; omega)
    simp only [numerator, hnext, Format.significand, hscale, Nat.add_sub_cancel_left, twoTo_eq]
    ring

theorem numerator_of_zero {x : Binary f} (h : x.magnitude = 0) : x.numerator = 0 := by
  rw [numerator, h, Format.significand, Nat.zero_sub, Nat.zero_mul]

theorem ofRatio_zero (negative : Bool) (den : Nat) :
    (ofRatio negative 0 den : Binary f) = ⟨negative, 0⟩ := by
  simp [ofRatio, Format.round, roundDiv]

end Binary

/-- A point in a neighbourhood lies between its ends, and on one only if they belong to it. -/
theorem Neighbourhood.contains_iff {n : Neighbourhood} {unit point : Nat} :
    n.contains unit point ↔ n.low * unit ≤ point ∧ point ≤ n.high * unit ∧
      (point = n.low * unit ∨ point = n.high * unit → n.endsIncluded) := by
  unfold contains
  cases n.endsIncluded with
  | true => simp
  | false =>
    simp
    omega

/-- The scale of a quotient that lies between two powers of two. -/
theorem Format.log2_div_eq {f : Format} {scaled den scale : Nat} (hden : 0 < den)
    (hlow : f.binade * (2 ^ scale * den) ≤ scaled ∨ scale = 0)
    (hhigh : scaled < 2 * (f.binade * (2 ^ scale * den))) :
    (scaled / den).log2 - f.fractionBits = scale := by
  have hbinade : f.binade = 2 ^ f.fractionBits := rfl
  have hlt : scaled / den < 2 ^ (f.fractionBits + scale + 1) := by
    apply Nat.div_lt_of_lt_mul
    calc scaled < 2 * (f.binade * (2 ^ scale * den)) := hhigh
      _ = den * 2 ^ (f.fractionBits + scale + 1) := by rw [hbinade]; ring
  by_cases hzero : scaled / den = 0
  · rcases hlow with h | rfl
    · have : den ≤ scaled := by
        calc den = 1 * (1 * den) := by ring
          _ ≤ f.binade * (2 ^ scale * den) :=
            Nat.mul_le_mul f.binade_pos (Nat.mul_le_mul_right _ (Nat.two_pow_pos _))
          _ ≤ scaled := h
      have := Nat.div_pos this hden
      omega
    · simp [hzero]
  · have hlog : (scaled / den).log2 < f.fractionBits + scale + 1 := (Nat.log2_lt hzero).mpr hlt
    rcases hlow with h | rfl
    · have hle : 2 ^ (f.fractionBits + scale) ≤ scaled / den := by
        rw [Nat.le_div_iff_mul_le hden, Nat.pow_add, Nat.mul_assoc]
        exact h
      have := (Nat.le_log2 hzero).mpr hle
      omega
    · omega

/-- A quotient of enough bits lies between two powers of two. -/
theorem Format.exists_between {f : Format} {scaled den bits : Nat} (hden : 0 < den)
    (hlow : f.binade * den ≤ scaled) (hhigh : scaled < 2 ^ bits * den) :
    ∃ k, k < bits ∧ f.binade * (2 ^ k * den) ≤ scaled ∧
      scaled < 2 * (f.binade * (2 ^ k * den)) := by
  have hle : 2 ^ f.fractionBits ≤ scaled / den := (Nat.le_div_iff_mul_le hden).mpr hlow
  have hlt : scaled / den < 2 ^ bits := Nat.div_lt_of_lt_mul (by rwa [Nat.mul_comm])
  have hpos : scaled / den ≠ 0 := by have := Nat.two_pow_pos f.fractionBits; omega
  have hfew := (Nat.log2_lt hpos).mpr hlt
  obtain ⟨k, hk⟩ := Nat.exists_eq_add_of_le ((Nat.le_log2 hpos).mpr hle)
  refine ⟨k, by omega, ?_, ?_⟩
  · calc f.binade * (2 ^ k * den) = 2 ^ (scaled / den).log2 * den := by
          rw [hk, Nat.pow_add, Nat.mul_assoc]; rfl
      _ ≤ scaled / den * den := Nat.mul_le_mul_right _ (Nat.log2_self_le hpos)
      _ ≤ scaled := Nat.div_mul_le_self ..
  · calc scaled < (scaled / den + 1) * den := (Nat.div_lt_iff_lt_mul hden).mp (Nat.lt_succ_self _)
      _ ≤ 2 ^ ((scaled / den).log2 + 1) * den := Nat.mul_le_mul_right _ Nat.lt_log2_self
      _ = 2 * (f.binade * (2 ^ k * den)) := by
          rw [hk, Format.binade, twoTo_eq]; ring

/-- Rounding, with the scale it works at. -/
theorem Format.round_eq {f : Format} {num den k : Nat} (hden : 0 < den)
    (hlow : f.binade * (2 ^ k * den) ≤ num * f.one ∨ k = 0)
    (hhigh : num * f.one < 2 * (f.binade * (2 ^ k * den))) :
    f.round num den =
      min (k * f.binade + roundDiv (num * f.one) (2 ^ k * den)) f.infinite := by
  simp only [Format.round, log2_div_eq hden hlow hhigh, twoTo_eq, Nat.mul_comm den]

section
variable {f : Format} {num den k : Nat} (hden : 0 < den)
include hden

/-- What is within half a unit of a significand, at its scale, is rounded to it. -/
theorem Format.round_of_near {m : Nat} (hm : m < 2 * f.binade)
    (hscale : f.binade * (2 ^ k * den) ≤ num * f.one ∨ k = 0)
    (hlow : 2 * (m * (2 ^ k * den)) ≤ 2 * (num * f.one) + 2 ^ k * den)
    (hhigh : 2 * (num * f.one) ≤ 2 * (m * (2 ^ k * den)) + 2 ^ k * den)
    (htie : 2 * (m * (2 ^ k * den)) = 2 * (num * f.one) + 2 ^ k * den ∨
      2 * (num * f.one) = 2 * (m * (2 ^ k * den)) + 2 ^ k * den → m % 2 = 0) :
    f.round num den = min (k * f.binade + m) f.infinite := by
  have hunit : 0 < 2 ^ k * den := Nat.mul_pos (Nat.two_pow_pos k) hden
  have hroom : (m + 1) * (2 ^ k * den) ≤ 2 * f.binade * (2 ^ k * den) :=
    Nat.mul_le_mul_right _ hm
  rw [Nat.add_mul, Nat.mul_assoc] at hroom
  rw [f.round_eq hden hscale (by omega), roundDiv_eq hunit hlow hhigh htie]

/-- What is less than the least significand of a scale by a quarter of a unit at most is rounded to
it all the same, though with half the unit. -/
theorem Format.round_of_least (hbelow : num * f.one < f.binade * (2 ^ (k + 1) * den))
    (hnear : 4 * (f.binade * (2 ^ (k + 1) * den)) ≤ 4 * (num * f.one) + 2 ^ (k + 1) * den) :
    f.round num den = min ((k + 1) * f.binade + f.binade) f.infinite := by
  have hunit : 0 < 2 ^ k * den := Nat.mul_pos (Nat.two_pow_pos k) hden
  have hhalf : f.binade * (2 ^ (k + 1) * den) = 2 * (f.binade * (2 ^ k * den)) := by ring
  have hunit' : 2 ^ (k + 1) * den = 2 * (2 ^ k * den) := by ring
  have hpos : 2 ^ k * den ≤ f.binade * (2 ^ k * den) := Nat.le_mul_of_pos_left _ f.binade_pos
  rw [hhalf] at hbelow hnear
  rw [hunit'] at hnear
  rw [f.round_eq (k := k) hden (.inl (by omega)) hbelow,
    roundDiv_eq (q := 2 * f.binade) hunit (by rw [Nat.mul_assoc]; omega)
      (by rw [Nat.mul_assoc]; omega) (by omega)]
  congr 1
  ring

/-- What lies in the neighbourhood of a number rounds to it. -/
theorem Binary.round_of_contains {x : Binary f} (hx : x.isFinite)
    (h : x.neighbourhood.contains den (4 * (num * f.one))) : f.round num den = x.magnitude := by
  have hsum := f.scale_mul_add_significand x.magnitude
  have hlt := f.significand_lt x.magnitude
  have hge : 0 < f.scale x.magnitude → _ := f.binade_le_significand
  have hfinite : x.magnitude < f.infinite := by simpa [isFinite] using hx
  obtain ⟨hlow, hhigh, hends⟩ := Neighbourhood.contains_iff.mp h
  simp only [neighbourhood, twoTo_eq, beq_iff_eq, Nat.mul_assoc] at hlow hhigh hends
  generalize f.scale x.magnitude = k at *
  generalize f.significand x.magnitude = m at *
  have hunit : 0 < 2 ^ k * den := Nat.mul_pos (Nat.two_pow_pos k) hden
  simp only [Nat.add_mul, Nat.mul_assoc] at hhigh hends
  rw [← min_eq_left hfinite.le, ← hsum]
  by_cases hleast : m = f.binade ∧ 0 < k
  · -- The end below is a quarter of a unit off, and what lies below is rounded at half the unit.
    rw [if_pos hleast, Nat.sub_mul, Nat.mul_assoc] at hlow
    by_cases hscale : f.binade * (2 ^ k * den) ≤ num * f.one
    · exact f.round_of_near hden hlt (.inl hscale) (by omega) (by omega) (by omega)
    · obtain ⟨rfl, hk⟩ := hleast
      obtain ⟨k, rfl⟩ : ∃ k', k = k' + 1 := ⟨k - 1, by omega⟩
      exact f.round_of_least hden (Nat.lt_of_not_le hscale) (by omega)
  · rw [if_neg hleast, Nat.sub_mul, Nat.mul_assoc] at hlow hends
    refine f.round_of_near hden hlt ?_ (by omega) (by omega) (by omega)
    rcases Nat.eq_zero_or_pos k with hk | hk
    · exact .inr hk
    · have hle := Nat.mul_le_mul_right (2 ^ k * den)
        (show f.binade + 1 ≤ m by have := hge hk; omega)
      rw [Nat.succ_mul] at hle
      exact .inl (by omega)

end

namespace Binary
variable {f : Format}

theorem centre_neighbourhood (x : Binary f) : x.neighbourhood.centre = 4 * x.numerator := by
  simp only [neighbourhood, numerator, Nat.mul_assoc]

/-- A number rounds to itself. -/
theorem contains_centre (x : Binary f) {unit : Nat} (hunit : 0 < unit) :
    x.neighbourhood.contains unit (x.neighbourhood.centre * unit) := by
  have hpos : 0 < 2 ^ f.scale x.magnitude := Nat.two_pow_pos _
  rw [Neighbourhood.contains_iff]
  simp only [neighbourhood, twoTo_eq, beq_iff_eq, Nat.mul_left_inj hunit.ne',
    Nat.mul_left_inj hpos.ne']
  refine ⟨Nat.mul_le_mul_right _ (Nat.mul_le_mul_right _ ?_),
    Nat.mul_le_mul_right _ (Nat.mul_le_mul_right _ (by omega)), ?_⟩
  · split <;> omega
  · split <;> omega

/-- A whole number with few bits has a normal form. -/
theorem exists_scale {c k : Nat} (hc : c < 2 * f.binade) :
    ∃ c' k', c' * 2 ^ k' = c * 2 ^ k ∧ c' < 2 * f.binade ∧ (f.binade ≤ c' ∨ k' = 0) ∧ k' ≤ k := by
  induction k generalizing c with
  | zero => exact ⟨c, 0, rfl, hc, .inr rfl, le_rfl⟩
  | succ k ih =>
    rcases Nat.lt_or_ge c f.binade with hsmall | hbig
    · obtain ⟨c', k', heq, hc', hform, hle⟩ := ih (c := 2 * c) (by omega)
      exact ⟨c', k', by rw [heq]; ring, hc', hform, by omega⟩
    · exact ⟨c, k + 1, rfl, hc, .inl hbig, le_rfl⟩

/-- A quotient with few enough bits is not changed by rounding. -/
theorem ofRatio_exact (negative : Bool) {num den c k : Nat} (hden : 0 < den)
    (hc : c < 2 * f.binade) (hk : (k + 2) * f.binade ≤ f.infinite)
    (h : num * f.one = c * 2 ^ k * den) :
    (ofRatio negative num den : Binary f).isFinite ∧
      (ofRatio negative num den : Binary f).numerator = c * 2 ^ k := by
  obtain ⟨c', k', heq, hc', hform, hle⟩ := exists_scale (k := k) hc
  have hfinite : (⟨negative, k' * f.binade + c'⟩ : Binary f).isFinite := by
    have : (k' + 2) * f.binade ≤ (k + 2) * f.binade := Nat.mul_le_mul_right _ (by omega)
    rw [Nat.add_mul] at this
    simp only [isFinite, decide_eq_true_eq]
    omega
  have hnum : (⟨negative, k' * f.binade + c'⟩ : Binary f).numerator = c * 2 ^ k := by
    rw [numerator_eq hform hc'.le, heq]
  have hround : f.round num den = k' * f.binade + c' := by
    refine round_of_contains hden hfinite ?_
    have := contains_centre (⟨negative, k' * f.binade + c'⟩ : Binary f) hden
    rwa [centre_neighbourhood, hnum, Nat.mul_assoc, ← h] at this
  rw [ofRatio, hround]
  exact ⟨hfinite, hnum⟩

/-- The absolute value of a finite number. -/
def absolute (x : Binary f) : ℚ := x.numerator / f.one

section
variable {num den bits : Nat} (hden : 0 < den) (hlow : f.binade * den ≤ num * f.one)
  (hhigh : num * f.one < 2 ^ bits * den) (hroom : (bits + 1) * f.binade < f.infinite)
include hden hlow hhigh hroom

/-- The scale that a quotient of enough bits is rounded at, and the significand it is rounded to. -/
theorem exists_round_eq : ∃ k c, f.binade ≤ c ∧ c ≤ 2 * f.binade ∧
    f.binade * (2 ^ k * den) ≤ num * f.one ∧
    2 * (c * (2 ^ k * den)) ≤ 2 * (num * f.one) + 2 ^ k * den ∧
    2 * (num * f.one) ≤ 2 * (c * (2 ^ k * den)) + 2 ^ k * den ∧
    k * f.binade + c < f.infinite ∧ f.round num den = k * f.binade + c := by
  obtain ⟨k, hk, hbelow, habove⟩ := Format.exists_between hden hlow hhigh
  have hunit : 0 < 2 ^ k * den := Nat.mul_pos (Nat.two_pow_pos k) hden
  obtain ⟨hnear, hnear'⟩ := roundDiv_near (num * f.one) hunit
  have hround := f.round_eq hden (.inl hbelow) habove
  generalize roundDiv (num * f.one) (2 ^ k * den) = c at hnear hnear' hround
  have hc : f.binade ≤ c := by
    by_contra! h
    have hle := Nat.mul_le_mul_right (2 ^ k * den) (Nat.succ_le_of_lt h)
    rw [Nat.succ_mul] at hle
    omega
  have hc' : c ≤ 2 * f.binade := by
    by_contra! h
    have hle := Nat.mul_le_mul_right (2 ^ k * den) (Nat.succ_le_of_lt h)
    rw [Nat.succ_mul, Nat.mul_assoc] at hle
    omega
  have hfinite : k * f.binade + c < f.infinite := by
    have hle : (k + 2) * f.binade ≤ (bits + 1) * f.binade := Nat.mul_le_mul_right _ (by omega)
    rw [Nat.add_mul] at hle
    omega
  rw [min_eq_left hfinite.le] at hround
  exact ⟨k, c, hc, hc', hbelow, hnear, hnear', hfinite, hround⟩

/-- Rounding a quotient that is not below the least significand moves it by at most one part in
twice as many as there are numbers of one scale. -/
theorem ofRatio_near (negative : Bool) : (ofRatio negative num den : Binary f).isFinite ∧
    |(ofRatio negative num den : Binary f).absolute - num / den| ≤
      (num / den : ℚ) / (2 * f.binade) := by
  obtain ⟨k, c, hc, hc', hbelow, hnear, hnear', hfinite, hround⟩ :=
    exists_round_eq hden hlow hhigh hroom
  rw [ofRatio, hround]
  refine ⟨by simpa [isFinite] using hfinite, ?_⟩
  rw [absolute, numerator_eq (.inl hc) hc']
  have hone : (0 : ℚ) < f.one := by exact_mod_cast f.one_pos
  have hbinade : (0 : ℚ) < f.binade := by exact_mod_cast f.binade_pos
  have hden' : (0 : ℚ) < den := by exact_mod_cast hden
  -- Half a unit of the place `2 ^ k` is what rounding moves by, in multiples of the denominator.
  have hmoved : |(c * (2 ^ k * den) - num * f.one : ℚ)| ≤ 2 ^ k * den / 2 := by
    have hup : (2 * (c * (2 ^ k * den)) : ℚ) ≤ 2 * (num * f.one) + 2 ^ k * den := by
      exact_mod_cast hnear
    have hdown : (2 * (num * f.one) : ℚ) ≤ 2 * (c * (2 ^ k * den)) + 2 ^ k * den := by
      exact_mod_cast hnear'
    exact abs_le.mpr ⟨by linarith, by linarith⟩
  have hsmall : (2 ^ k * den / 2 : ℚ) ≤ num * f.one / (2 * f.binade) := by
    have hbelow' : (f.binade * (2 ^ k * den) : ℚ) ≤ num * f.one := by exact_mod_cast hbelow
    rw [div_le_div_iff₀ two_pos (by positivity)]
    linarith
  calc |((c * 2 ^ k : Nat) : ℚ) / f.one - num / den|
      = |(c * (2 ^ k * den) - num * f.one : ℚ) / (f.one * den)| := by
        congr 1
        push_cast
        field_simp
    _ = |(c * (2 ^ k * den) - num * f.one : ℚ)| / (f.one * den) := by
        rw [abs_div, abs_of_pos (mul_pos hone hden')]
    _ ≤ (num * f.one / (2 * f.binade) : ℚ) / (f.one * den) := by
        gcongr
        exact hmoved.trans hsmall
    _ = (num / den : ℚ) / (2 * f.binade) := by field_simp

end

end Binary
end TextReveal.Number
