import TextReveal.Proofs.Narrowing
/-!
Numbers as JSON spells them. Digits that are written are read as the number they are digits of, and
each layout of a decimal as its digits and its power of ten.
-/
namespace TextReveal.Json
open Number

theorem natOfDigits_eq (digits : List Char) : natOfDigits digits = Nat.ofDigitChars 10 digits 0 :=
  rfl

theorem le_ofDigitChars (digits : List Char) (n : Nat) : n ≤ Nat.ofDigitChars 10 digits n := by
  rw [Nat.ofDigitChars_eq_ofDigitChars_zero]
  exact (Nat.le_mul_of_pos_left n (Nat.pow_pos (by norm_num))).trans (Nat.le_add_right ..)

/-- Digits of a number that fits are all taken. -/
theorem absorb_eq {digits : List Char} {n : Nat}
    (h : Nat.ofDigitChars 10 digits n ≤ largestWord) :
    absorb n digits = (Nat.ofDigitChars 10 digits n, digits.length) := by
  induction digits generalizing n with
  | nil => rfl
  | cons c digits ih =>
    rw [Nat.ofDigitChars_cons] at h ⊢
    rw [absorb, if_pos ((le_ofDigitChars ..).trans h), ih h]
    rfl

/-- The digits of a number other than zero do not start with a zero. -/
theorem exists_head_toDigits {n : Nat} (h : 0 < n) :
    ∃ c, (Nat.toDigits 10 n).head? = some c ∧ c ≠ '0' := by
  induction n using Nat.strongRecOn with
  | ind n ih =>
    rw [Nat.toDigits_eq_if (by norm_num)]
    split
    · exact ⟨_, rfl, by simpa using h.ne'⟩
    · rw [List.head?_append_of_ne_nil _ Nat.toDigits_ne_nil]
      exact ih _ (Nat.div_lt_self h (by norm_num)) (Nat.div_pos (by omega) (by norm_num))

/-- What may follow a number. -/
def Stops (s : List Char) : Prop :=
  ∀ c ∈ s.head?, ¬c.isDigit ∧ c ≠ '.' ∧ c ≠ 'e' ∧ c ≠ 'E'

theorem takeWhile_digits {digits s : List Char} (hdigits : ∀ c ∈ digits, c.isDigit)
    (hs : ∀ c ∈ s.head?, ¬c.isDigit) : (digits ++ s).takeWhile Char.isDigit = digits := by
  rw [List.takeWhile_append_of_pos hdigits]
  cases s with
  | nil => simp
  | cons c s => rw [List.takeWhile_cons_of_neg (hs c rfl), List.append_nil]

theorem dropWhile_digits {digits s : List Char} (hdigits : ∀ c ∈ digits, c.isDigit)
    (hs : ∀ c ∈ s.head?, ¬c.isDigit) : (digits ++ s).dropWhile Char.isDigit = s := by
  rw [List.dropWhile_append_of_pos hdigits]
  cases s with
  | nil => rfl
  | cons c s => exact List.dropWhile_cons_of_neg (hs c rfl)

theorem isDigit_toDigits {n : Nat} : ∀ c ∈ Nat.toDigits 10 n, c.isDigit :=
  fun _ => Nat.isDigit_of_mem_toDigits (by norm_num) (by norm_num)

section
variable {negative : Bool} {digits : Nat} {exponent : ℤ} {s : List Char}

theorem readScaled_of_stops (hs : Stops s) : readScaled negative digits exponent s =
    (shift (.ofNat digits) exponent).map fun x => (signed negative x, s) := by
  cases s with
  | nil => rfl
  | cons c s =>
    obtain ⟨-, -, hlower, hupper⟩ := hs c rfl
    rw [readScaled, if_neg (by simp [hlower, hupper])]

/-- A power of ten is spelled with its sign. -/
theorem readScaled_power (down : Bool) {e : Nat} (he : e < 2 ^ 31) (hs : Stops s) :
    readScaled negative digits exponent
        ('e' :: (if down then '-' else '+') :: (Nat.toDigits 10 e ++ s)) =
      (shift (.ofNat digits) (if down then exponent - e else exponent + e)).map
        fun x => (signed negative x, s) := by
  have hsign : takeSign ((if down then '-' else '+') :: (Nat.toDigits 10 e ++ s)) =
      (down, Nat.toDigits 10 e ++ s) := by
    cases down <;> rfl
  have hend : ∀ c ∈ s.head?, ¬c.isDigit := fun c hc => (hs c hc).1
  rw [readScaled, if_pos (.inl rfl), hsign]
  dsimp only
  rw [takeWhile_digits isDigit_toDigits hend, dropWhile_digits isDigit_toDigits hend,
    if_neg (by simp [Nat.toDigits_ne_nil]), if_neg Nat.toDigits_ne_nil, natOfDigits_eq,
    Nat.ofDigitChars_ten_toDigits, if_neg (by simpa [twoTo_eq] using he)]

end

/-- The digits before a point: one at least, and no zero before others. -/
structure IsWhole (whole : List Char) : Prop where
  digits : ∀ c ∈ whole, c.isDigit
  wellFormed : ¬(whole = [] ∨ whole.head? = some '0' ∧ 1 < whole.length)

theorem isWhole_of_head {whole : List Char} {c : Char} (hdigits : ∀ c ∈ whole, c.isDigit)
    (hhead : whole.head? = some c) (hc : c ≠ '0') : IsWhole whole := by
  refine ⟨hdigits, ?_⟩
  rintro (rfl | ⟨h, -⟩)
  · cases hhead
  · rw [hhead, Option.some.injEq] at h
    exact hc h

theorem isWhole_zero : IsWhole ['0'] :=
  ⟨List.forall_mem_singleton.mpr rfl, by decide⟩

theorem isWhole_toDigits (n : Nat) : IsWhole (Nat.toDigits 10 n) := by
  rcases Nat.eq_zero_or_pos n with rfl | hpos
  · exact isWhole_zero
  · obtain ⟨c, hhead, hc⟩ := exists_head_toDigits hpos
    exact isWhole_of_head isDigit_toDigits hhead hc

section
variable {negative : Bool} {whole places s : List Char} (hwhole : IsWhole whole)
include hwhole

/-- A number with digits behind its point. -/
theorem readNumeral_fraction (hplaces : ∀ c ∈ places, c.isDigit) (hsome : places ≠ [])
    (hs : ∀ c ∈ s.head?, ¬c.isDigit)
    (hfew : Nat.ofDigitChars 10 (whole ++ places) 0 ≤ largestWord) :
    readNumeral negative (whole ++ '.' :: (places ++ s)) =
      (readScaled negative (Nat.ofDigitChars 10 (whole ++ places) 0) (-places.length) s).map
        fun (x, rest) => (.real x, rest) := by
  rw [Nat.ofDigitChars_append] at hfew ⊢
  have hend : ∀ c ∈ ('.' :: (places ++ s)).head?, ¬c.isDigit := by simp
  have hfew' : Nat.ofDigitChars 10 whole 0 ≤ largestWord := (le_ofDigitChars ..).trans hfew
  simp only [readNumeral, takeWhile_digits hwhole.digits hend, dropWhile_digits hwhole.digits hend,
    absorb_eq hfew', absorb_eq hfew, takeWhile_digits hplaces hs, dropWhile_digits hplaces hs]
  rw [if_neg (by simp), if_neg hwhole.wellFormed, if_neg hsome, Nat.sub_self, Nat.cast_zero,
    zero_sub]

/-- A number with a power of ten and without a point. -/
theorem readNumeral_power (hfew : Nat.ofDigitChars 10 whole 0 ≤ largestWord) :
    readNumeral negative (whole ++ 'e' :: s) =
      (readScaled negative (Nat.ofDigitChars 10 whole 0) 0 ('e' :: s)).map
        fun (x, rest) => (.real x, rest) := by
  have hend : ∀ c ∈ ('e' :: s).head?, ¬c.isDigit := by simp
  simp only [readNumeral, takeWhile_digits hwhole.digits hend, dropWhile_digits hwhole.digits hend,
    absorb_eq hfew]
  rw [if_neg (by simp), if_neg hwhole.wellFormed, Nat.sub_self, if_neg (by simp), Nat.cast_zero]
  rfl

/-- A whole number. -/
theorem readNumeral_whole (hs : Stops s) (hfew : Nat.ofDigitChars 10 whole 0 ≤ largestWord) :
    readNumeral false (whole ++ s) = .ok (.natural (Nat.ofDigitChars 10 whole 0), s) := by
  have hend : ∀ c ∈ s.head?, ¬c.isDigit := fun c hc => (hs c hc).1
  have hsome : whole ≠ [] := fun h => hwhole.wellFormed (.inl h)
  simp only [readNumeral, takeWhile_digits hwhole.digits hend, dropWhile_digits hwhole.digits hend,
    absorb_eq hfew]
  rw [if_neg (by simp [hsome]), if_neg hwhole.wellFormed, Nat.sub_self]
  cases s with
  | nil => rfl
  | cons c s =>
    obtain ⟨-, hpoint, hlower, hupper⟩ := hs c rfl
    simp [hpoint, hlower, hupper]

end

section
variable {d : Decimal}

theorem isSpelled_self (hpos : 0 < d.digits) (hfew : d.digits < 2 ^ 53)
    (hmoderate : d.exponent.natAbs ≤ 50) : d.IsSpelled d.digits d.exponent :=
  ⟨rfl, fun _ => ⟨rfl, rfl⟩, hpos, hfew, hmoderate⟩

theorem isDigit_chars (d : Decimal) : ∀ c ∈ d.chars, c.isDigit :=
  isDigit_toDigits

theorem chars_ne_nil (d : Decimal) : d.chars ≠ [] :=
  Nat.toDigits_ne_nil

theorem exists_head_chars (h : 0 < d.digits) : ∃ c, d.chars.head? = some c ∧ c ≠ '0' :=
  exists_head_toDigits h

theorem ofDigitChars_chars (d : Decimal) : Nat.ofDigitChars 10 d.chars 0 = d.digits :=
  Nat.ofDigitChars_ten_toDigits

theorem isDigit_zeros {n : Nat} : ∀ c ∈ zeros n, c.isDigit := by
  intro c hc
  rw [List.eq_of_mem_replicate hc]
  rfl

theorem le_largestWord {n : Nat} (h : n < 2 ^ 53) : n ≤ largestWord := by
  have hword : largestWord = 2 ^ 64 - 1 := rfl
  omega

variable {negative : Bool} {s : List Char} (hpos : 0 < d.digits) (hfew : d.digits < 2 ^ 53)
  (hs : Stops s)
include hs

theorem map_readScaled {n : Nat} {p : ℤ} : ((readScaled negative n p s).map
    fun (x, rest) => (Numeral.real x, rest)) =
      (shift (.ofNat n) p).map fun y => (.real (signed negative y), s) := by
  rw [readScaled_of_stops hs]
  cases shift (.ofNat n) p <;> rfl

theorem map_readScaled_power {n : Nat} {p : ℤ} (down : Bool) {e : Nat} (he : e < 2 ^ 31) :
    ((readScaled negative n p ('e' :: (if down then '-' else '+') :: (Nat.toDigits 10 e ++ s))).map
      fun (x, rest) => (Numeral.real x, rest)) =
        (shift (.ofNat n) (if down then p - e else p + e)).map
          fun y => (.real (signed negative y), s) := by
  rw [readScaled_power down he hs]
  cases shift (.ofNat n) (if down then p - e else p + e) <;> rfl

include hfew

/-- All digits behind the point, and zeros before them. -/
theorem readNumeral_small {n : Nat} (hn : d.exponent = -(n + d.chars.length : ℕ)) :
    readNumeral negative (['0'] ++ '.' :: ((zeros n ++ d.chars) ++ s)) =
      (shift (.ofNat d.digits) d.exponent).map fun y => (.real (signed negative y), s) := by
  have hvalue : Nat.ofDigitChars 10 (['0'] ++ (zeros n ++ d.chars)) 0 = d.digits := by
    rw [Nat.ofDigitChars_append, Nat.ofDigitChars_append, zeros, Nat.ofDigitChars_replicate_zero]
    exact ofDigitChars_chars d
  rw [readNumeral_fraction isWhole_zero _ _ (fun c hc => (hs c hc).1)
    (hvalue ▸ le_largestWord hfew), hvalue, map_readScaled hs, hn]
  · congr 2
    simp [zeros]
  · intro c hc
    exact (List.mem_append.mp hc).elim (isDigit_zeros c) (isDigit_chars d c)
  · simp [chars_ne_nil]

include hpos

omit hfew in
/-- All digits before the point, and zeros behind them. -/
theorem readNumeral_large {n : Nat} (hroom : d.digits * 10 ^ n * 10 < 2 ^ 53) :
    readNumeral negative ((d.chars ++ zeros n) ++ '.' :: (['0'] ++ s)) =
      (shift (.ofNat (d.digits * 10 ^ n * 10)) (-1)).map
        fun y => (.real (signed negative y), s) := by
  obtain ⟨c, hhead, hc⟩ := exists_head_chars hpos
  have hwhole : IsWhole (d.chars ++ zeros n) :=
    isWhole_of_head (fun c hc => (List.mem_append.mp hc).elim (isDigit_chars d c) (isDigit_zeros c))
      (by rw [List.head?_append_of_ne_nil _ (chars_ne_nil d)]; exact hhead) hc
  have hvalue : Nat.ofDigitChars 10 ((d.chars ++ zeros n) ++ ['0']) 0 = d.digits * 10 ^ n * 10 := by
    rw [Nat.ofDigitChars_append, Nat.ofDigitChars_append, zeros, Nat.ofDigitChars_replicate_zero,
      ofDigitChars_chars]
    show 10 * (10 ^ n * d.digits) + 0 = _
    ring
  rw [readNumeral_fraction hwhole isWhole_zero.digits (by decide) (fun c hc => (hs c hc).1)
    (hvalue ▸ le_largestWord hroom), hvalue, map_readScaled hs]
  rfl

/-- The point among the digits. -/
theorem readNumeral_mixed {n : Nat} (hn : d.exponent = -(d.chars.length - n : ℕ)) (hsome : 0 < n)
    (hmore : n < d.chars.length) :
    readNumeral negative (d.chars.take n ++ '.' :: (d.chars.drop n ++ s)) =
      (shift (.ofNat d.digits) d.exponent).map fun y => (.real (signed negative y), s) := by
  obtain ⟨c, hhead, hc⟩ := exists_head_chars hpos
  have hwhole : IsWhole (d.chars.take n) :=
    isWhole_of_head (fun c hc => isDigit_chars d c (List.mem_of_mem_take hc))
      (by rw [List.head?_take, if_neg hsome.ne']; exact hhead) hc
  have hvalue : Nat.ofDigitChars 10 (d.chars.take n ++ d.chars.drop n) 0 = d.digits := by
    rw [List.take_append_drop, ofDigitChars_chars]
  rw [readNumeral_fraction hwhole (fun c hc => isDigit_chars d c (List.mem_of_mem_drop hc)) _
    (fun c hc => (hs c hc).1) (hvalue ▸ le_largestWord hfew), hvalue, map_readScaled hs, hn,
    List.length_drop]
  simpa using hmore

/-- One digit before the point, and a power of ten. -/
theorem readNumeral_scientific (hlead : d.lead.natAbs < 2 ^ 31) :
    readNumeral negative (d.writeScientific true ++ s) =
      (shift (.ofNat d.digits) d.exponent).map fun y => (.real (signed negative y), s) := by
  obtain ⟨c, hhead, hc⟩ := exists_head_chars hpos
  have hvalue := ofDigitChars_chars d
  have hdigits := isDigit_chars d
  have hlength : d.exponent = d.lead - (d.chars.length - 1 : ℕ) := by
    rw [Decimal.lead]
    omega
  have hpower (p : ℤ) : (if decide (d.lead < 0) then p - d.lead.natAbs else p + d.lead.natAbs) =
      p + d.lead := by
    by_cases h : d.lead < 0
    · rw [decide_eq_true h, if_pos rfl]
      omega
    · rw [decide_eq_false h, if_neg Bool.false_ne_true]
      omega
  have htext (fraction : List Char) : fraction ++ 'e' :: (if d.lead < 0 then ['-'] else
      if true then ['+'] else []) ++ Nat.toDigits 10 d.lead.natAbs ++ s = fraction ++ 'e' ::
        (if decide (d.lead < 0) then '-' else '+') :: (Nat.toDigits 10 d.lead.natAbs ++ s) := by
    by_cases h : d.lead < 0 <;> simp [h]
  unfold Decimal.writeScientific
  cases hchars : d.chars with
  | nil => exact absurd hchars (chars_ne_nil d)
  | cons c' rest =>
    rw [hchars] at hhead hvalue hdigits hlength
    obtain rfl : c' = c := by simpa using hhead
    have hwhole : IsWhole [c'] :=
      isWhole_of_head (by simpa using hdigits c' List.mem_cons_self) rfl hc
    dsimp only
    rw [htext]
    -- A single digit is written without a point.
    cases rest with
    | nil =>
      rw [readNumeral_power hwhole (hvalue ▸ le_largestWord hfew), hvalue,
        map_readScaled_power hs _ hlead, hpower, hlength]
      simp
    | cons c'' rest =>
      show readNumeral negative ([c'] ++ '.' :: ((c'' :: rest) ++ 'e' :: _)) = _
      rw [readNumeral_fraction hwhole (fun c hc => hdigits c (List.mem_cons_of_mem _ hc)) (by simp)
        (by simp) (hvalue ▸ le_largestWord hfew), List.singleton_append, hvalue,
        map_readScaled_power hs _ hlead, hpower, hlength]
      congr 2
      simp
      omega

end

theorem digits_lt_pow (d : Decimal) : d.digits < 10 ^ d.chars.length :=
  (Nat.length_toDigits_le_iff (by norm_num) Nat.length_toDigits_pos).mp le_rfl

theorem isSpelled_large {d : Decimal} {e : Nat} (he : d.exponent = e) (hpos : 0 < d.digits)
    (hshort : d.chars.length + e ≤ 13) : d.IsSpelled (d.digits * 10 ^ e * 10) (-1) := by
  refine ⟨?_, fun h => by omega, by positivity, ?_, by norm_num⟩
  · rw [he, zpow_natCast, zpow_neg_one]
    push_cast
    field_simp
  · calc d.digits * 10 ^ e * 10 < 10 ^ d.chars.length * 10 ^ e * 10 := by
          gcongr
          exact digits_lt_pow d
      _ = 10 ^ (d.chars.length + e) * 10 := by rw [pow_add]
      _ ≤ 10 ^ 13 * 10 := by gcongr; norm_num
      _ < 2 ^ 53 := by norm_num

/-- The way a stored decimal is read: its digits, maybe with zeros behind them, go through one
multiplication or division. -/
theorem readNumeral_write {d : Decimal} (negative : Bool) {s : List Char} (hpos : 0 < d.digits)
    (hfew : d.digits < 2 ^ 29) (hlow : -46 ≤ d.exponent) (hhigh : d.exponent ≤ 38)
    (hs : Stops s) :
    ∃ n p, d.IsSpelled n p ∧ readNumeral negative (d.write .stored ++ s) =
      (shift (.ofNat n) p).map fun y => (.real (signed negative y), s) := by
  have hfew' : d.digits < 2 ^ 53 := hfew.trans (by norm_num)
  have hself := isSpelled_self hpos hfew' (by omega)
  have hsome : 0 < d.chars.length := List.length_pos_iff.mpr (chars_ne_nil d)
  have hlength : d.chars.length ≤ 9 :=
    (Nat.length_toDigits_le_iff (by norm_num) (by norm_num)).mpr (hfew.trans (by norm_num))
  have hlead : d.lead = d.exponent + (d.chars.length - 1 : ℕ) := rfl
  unfold Decimal.write
  -- Positional with the point in front, behind or in between; or scientific.
  split
  next hpositional =>
    simp only [Layout.stored, Bool.and_eq_true, decide_eq_true_eq] at hpositional
    unfold Decimal.writePositional
    dsimp only [Layout.stored]
    split
    next hsmall =>
      refine ⟨_, _, hself, ?_⟩
      rw [← readNumeral_small hfew' hs (n := (-(d.lead + 1)).toNat) (by omega)]
      simp
    next hlarge =>
      split
      next hwhole =>
        refine ⟨_, _, isSpelled_large (e := d.exponent.toNat) (by omega) hpos (by omega), ?_⟩
        rw [← readNumeral_large hpos hs
          (isSpelled_large (e := d.exponent.toNat) (by omega) hpos (by omega)).few,
          show (d.lead + 1).toNat - d.chars.length = d.exponent.toNat by omega]
        simp
      next hmixed =>
        refine ⟨_, _, hself, ?_⟩
        rw [← readNumeral_mixed hpos hfew' hs (n := (d.lead + 1).toNat) (by omega) (by omega)
          (by omega)]
        simp
  next hscientific =>
    exact ⟨_, _, hself, readNumeral_scientific hpos hfew' hs (by omega)⟩

end TextReveal.Json
