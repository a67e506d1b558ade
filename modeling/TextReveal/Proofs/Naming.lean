import TextReveal.Name
import TextReveal.Tag
/-!
Normal forms of names. Lowering settles every character and never makes white space, so that a
normalized name is its own normal form.
-/
namespace TextReveal.Text

/-- A character that lower case leaves as it is, wherever it stands. -/
def IsLowered (c : Char) : Prop :=
  c ≠ 'Σ' ∧ c ≠ 'İ' ∧ simpleLower c = c

namespace CaseRow

/-- The last of the lower-case forms in a row. -/
def lastImage (row : CaseRow) : Nat := row.image + (row.last - row.first)

/-- Whether no lower-case form of `row` is covered by `other`: they lie apart, or take turns. -/
def isApart (row other : CaseRow) : Bool :=
  row.lastImage < other.first || other.last < row.image ||
    ((row.first == row.last || row.step == 2) && other.step == 2 &&
      (row.image + other.first) % 2 == 1)

/-- Whether no lower-case form of `row` lies between two codes. -/
def avoids (row : CaseRow) (codes : Nat × Nat) : Bool :=
  row.lastImage < codes.1 || codes.2 < row.image

theorem covers_iff {row : CaseRow} {code : Nat} :
    row.covers code = true ↔
      row.first ≤ code ∧ code ≤ row.last ∧ (code - row.first) % row.step = 0 := by
  simp [covers, and_assoc]

end CaseRow

/-- White space, the surrogates, the dotted capital I, and all that is no character. -/
def unlikelyImages : List (Nat × Nat) :=
  [(0, 32), (0x85, 0x85), (0xA0, 0xA0), (0x130, 0x130), (0x1680, 0x1680), (0x2000, 0x200A),
    (0x2028, 0x2029), (0x202F, 0x202F), (0x205F, 0x205F), (0x3000, 0x3000), (0xD800, 0xDFFF)]

theorem caseRows_apart :
    (caseRows.all fun row => caseRows.all row.isApart) = true := by
  decide +kernel

theorem caseRows_avoid :
    (caseRows.all fun row => row.lastImage < 0x110000 && unlikelyImages.all row.avoids) = true := by
  decide

/-- A code that a row lowers `code` to. -/
def LowersTo (code image : Nat) : Prop :=
  ∃ row ∈ caseRows, row.covers code = true ∧ image = row.image + (code - row.first)

theorem LowersTo.not_covered {code image : Nat} (h : LowersTo code image) {other : CaseRow}
    (ho : other ∈ caseRows) : other.covers image = false := by
  obtain ⟨row, hrow, hcov, rfl⟩ := h
  have hapart := List.all_eq_true.mp (List.all_eq_true.mp caseRows_apart row hrow) other ho
  simp only [CaseRow.isApart, Bool.or_eq_true, Bool.and_eq_true, decide_eq_true_eq,
    beq_iff_eq] at hapart
  rw [CaseRow.lastImage] at hapart
  rw [CaseRow.covers_iff] at hcov
  rw [← Bool.not_eq_true, CaseRow.covers_iff]
  intro hc
  -- Rows that overlap go by steps of two, and the form has the wrong parity for the other.
  obtain (hlow | hhigh) | ⟨⟨hone | hstep, hother⟩, hodd⟩ := hapart
  · omega
  · omega
  · rw [hother] at hc
    omega
  · rw [hstep] at hcov
    rw [hother] at hc
    omega

theorem LowersTo.outside {code image : Nat} (h : LowersTo code image) (codes : Nat × Nat)
    (hm : codes ∈ unlikelyImages) : image < codes.1 ∨ codes.2 < image := by
  obtain ⟨row, hrow, hcov, rfl⟩ := h
  have havoid := List.all_eq_true.mp caseRows_avoid row hrow
  rw [Bool.and_eq_true] at havoid
  have := List.all_eq_true.mp havoid.2 codes hm
  simp only [CaseRow.avoids, Bool.or_eq_true, decide_eq_true_eq] at this
  rw [CaseRow.lastImage] at this
  rw [CaseRow.covers_iff] at hcov
  omega

theorem LowersTo.lt {code image : Nat} (h : LowersTo code image) : image < 0x110000 := by
  obtain ⟨row, hrow, hcov, rfl⟩ := h
  have havoid := List.all_eq_true.mp caseRows_avoid row hrow
  rw [Bool.and_eq_true] at havoid
  have := of_decide_eq_true havoid.1
  rw [CaseRow.lastImage] at this
  rw [CaseRow.covers_iff] at hcov
  omega

theorem LowersTo.isValidChar {code image : Nat} (h : LowersTo code image) :
    image.isValidChar := by
  have hs := h.outside (0xD800, 0xDFFF) (by decide)
  have hl := h.lt
  simp only at hs
  unfold Nat.isValidChar
  omega

theorem toNat_ofNat_of_isValidChar {n : Nat} (h : n.isValidChar) : (Char.ofNat n).toNat = n := by
  rw [Char.ofNat, dif_pos h]
  rfl

/-- Either no row covers a character and it stays, or the code of its lower case is from a row. -/
theorem simpleLower_cases (c : Char) :
    (simpleLower c = c ∧ ∀ row ∈ caseRows, row.covers c.toNat = false) ∨
      LowersTo c.toNat (simpleLower c).toNat := by
  unfold simpleLower
  split
  case h_1 row hfind =>
    right
    have h : LowersTo c.toNat (row.image + (c.toNat - row.first)) :=
      ⟨row, List.mem_of_find?_eq_some hfind, by simpa using List.find?_some hfind, rfl⟩
    rw [toNat_ofNat_of_isValidChar h.isValidChar]
    exact h
  case h_2 hnone =>
    exact Or.inl ⟨rfl, fun row hrow => by simpa using List.find?_eq_none.mp hnone row hrow⟩

theorem simpleLower_of_not_covered {c : Char}
    (h : ∀ row ∈ caseRows, row.covers c.toNat = false) : simpleLower c = c := by
  have hnone : caseRows.find? (·.covers c.toNat) = none :=
    List.find?_eq_none.mpr fun row hrow => by simp [h row hrow]
  rw [simpleLower, hnone]

theorem isLowered_of_not_covered {c : Char} (hi : c ≠ 'İ')
    (h : ∀ row ∈ caseRows, row.covers c.toNat = false) : IsLowered c := by
  refine ⟨?_, hi, simpleLower_of_not_covered h⟩
  rintro rfl
  exact absurd (h ⟨931, 939, 1, 963⟩ (by decide)) (by decide)

theorem isLowered_simpleLower {c : Char} (hi : c ≠ 'İ') : IsLowered (simpleLower c) := by
  obtain ⟨hsame, hfree⟩ | hlow := simpleLower_cases c
  · rw [hsame]
    exact isLowered_of_not_covered hi hfree
  · refine isLowered_of_not_covered ?_ fun row hrow => hlow.not_covered hrow
    intro h
    have := hlow.outside (0x130, 0x130) (by decide)
    rw [h] at this
    exact absurd this (by decide)

theorem isLowered_of_mem_lowerBetween {before after : List Char} {c d : Char}
    (h : d ∈ lowerBetween before c after) : IsLowered d := by
  unfold lowerBetween at h
  split at h
  · have hd : d = 'ς' ∨ d = 'σ' := by
      simp only [List.mem_singleton] at h
      rw [h]
      split <;> simp
    obtain rfl | rfl := hd <;> exact ⟨by decide, by decide, by decide⟩
  · split at h
    · simp only [List.mem_cons, List.not_mem_nil, or_false] at h
      obtain rfl | rfl := h <;> exact ⟨by decide, by decide, by decide⟩
    · rw [List.mem_singleton] at h
      rw [h]
      exact isLowered_simpleLower (by assumption)

theorem isLowered_of_mem_lowerAfter {before s : List Char} {d : Char}
    (h : d ∈ lowerAfter before s) : IsLowered d := by
  induction s generalizing before with
  | nil => exact absurd h (by simp [lowerAfter])
  | cons c rest ih =>
    rw [lowerAfter, List.mem_append] at h
    obtain h | h := h
    · exact isLowered_of_mem_lowerBetween h
    · exact ih h

theorem lowerAfter_eq_self {before s : List Char} (h : ∀ d ∈ s, IsLowered d) :
    lowerAfter before s = s := by
  induction s generalizing before with
  | nil => rfl
  | cons c rest ih =>
    obtain ⟨hsigma, hi, hsame⟩ := h c List.mem_cons_self
    rw [lowerAfter, ih fun d hd => h d (List.mem_cons_of_mem c hd), lowerBetween, if_neg hsigma,
      if_neg hi, hsame]
    rfl

theorem lower_lower (s : List Char) : lower (lower s) = lower s :=
  lowerAfter_eq_self fun _ h => isLowered_of_mem_lowerAfter h

theorem isBlank_simpleLower {c : Char} (h : isBlank c = false) :
    isBlank (simpleLower c) = false := by
  obtain ⟨hsame, -⟩ | hlow := simpleLower_cases c
  · rwa [hsame]
  · have hout := hlow.outside
    simp only [unlikelyImages, List.mem_cons, List.not_mem_nil, or_false, forall_eq_or_imp,
      forall_eq] at hout
    simp only [isBlank, Bool.or_eq_false_iff, Bool.and_eq_false_iff, decide_eq_false_iff_not,
      beq_eq_false_iff_ne]
    omega

theorem isBlank_of_mem_lowerBetween {before after : List Char} {c d : Char}
    (hc : isBlank c = false) (h : d ∈ lowerBetween before c after) : isBlank d = false := by
  unfold lowerBetween at h
  split at h
  · simp only [List.mem_singleton] at h
    rw [h]
    split <;> decide
  · split at h
    · simp only [List.mem_cons, List.not_mem_nil, or_false] at h
      obtain rfl | rfl := h <;> decide
    · rw [List.mem_singleton] at h
      rw [h]
      exact isBlank_simpleLower hc

theorem lowerBetween_ne_nil (before : List Char) (c : Char) (after : List Char) :
    lowerBetween before c after ≠ [] := by
  unfold lowerBetween
  split
  · simp
  · split <;> simp

/-- Text with no white space at either end. -/
structure IsTrimmed (s : List Char) : Prop where
  first : ∀ c, s.head? = some c → isBlank c = false
  last : ∀ c, s.getLast? = some c → isBlank c = false

theorem isTrimmed_trim (s : List Char) : IsTrimmed (trim s) := by
  have hlast : ∀ c, (trim s).getLast? = some c → isBlank c = false := by
    intro c h
    rw [trim, trimEnd, List.getLast?_reverse] at h
    simpa [h] using List.head?_dropWhile_not isBlank (trimStart s).reverse
  refine ⟨fun c h => ?_, hlast⟩
  have hpre : trim s <+: trimStart s := by
    have := List.dropWhile_suffix isBlank (l := (trimStart s).reverse)
    simpa [trim, trimEnd] using List.reverse_prefix.mpr this
  have hstart : (trimStart s).head? = some c := by
    obtain ⟨tail, htail⟩ := hpre
    rw [← htail, List.head?_append, h]
    rfl
  rw [trimStart] at hstart
  simpa [hstart] using List.head?_dropWhile_not isBlank s

theorem trim_eq_self {s : List Char} (h : IsTrimmed s) : trim s = s := by
  have hstart : trimStart s = s := by
    cases s with
    | nil => rfl
    | cons c rest => exact List.dropWhile_cons_of_neg (by simp [h.first c rfl])
  have hend : trimEnd s = s := by
    rw [trimEnd]
    cases hr : s.reverse with
    | nil => simpa using hr.symm
    | cons c rest =>
      have hc : isBlank c = false := h.last c (by rw [← List.head?_reverse, hr]; rfl)
      rw [List.dropWhile_cons_of_neg (by simp [hc]), ← hr, List.reverse_reverse]
  rw [trim, hstart, hend]

theorem isTrimmed_lowerAfter {before s : List Char} (h : IsTrimmed s) :
    IsTrimmed (lowerAfter before s) := by
  constructor
  · intro d hd
    cases s with
    | nil => simp [lowerAfter] at hd
    | cons c rest =>
      obtain ⟨e, tail, he⟩ := List.exists_cons_of_ne_nil (lowerBetween_ne_nil before c rest)
      rw [lowerAfter, he] at hd
      cases hd
      exact isBlank_of_mem_lowerBetween (h.first c rfl) (he ▸ List.mem_cons_self)
  · intro d hd
    -- Only the last character matters from here on: the first changes along the induction.
    have hlast := h.last
    clear h
    induction s generalizing before with
    | nil => simp [lowerAfter] at hd
    | cons c rest ih =>
      cases rest with
      | nil =>
        simp only [lowerAfter, List.append_nil] at hd
        exact isBlank_of_mem_lowerBetween (hlast c rfl) (List.mem_of_getLast? hd)
      | cons c' rest =>
        have hne : lowerAfter (c :: before) (c' :: rest) ≠ [] := by
          simp [lowerAfter, lowerBetween_ne_nil]
        have hd' : (lowerAfter (c :: before) (c' :: rest)).getLast? = some d := by
          rw [lowerAfter, List.getLast?_append] at hd
          rwa [List.getLast?_eq_some_getLast hne] at hd ⊢
        exact ih hd' fun e he => hlast e (by rwa [List.getLast?_cons_cons])

theorem isTrimmed_lower {s : List Char} (h : IsTrimmed s) : IsTrimmed (lower s) :=
  isTrimmed_lowerAfter h

end TextReveal.Text

namespace TextReveal

theorem Name.normalize_normalize (name : String) :
    Name.normalize (Name.normalize name) = Name.normalize name := by
  have htrim := Text.trim_eq_self (Text.isTrimmed_lower (Text.isTrimmed_trim name.toList))
  simp only [Name.normalize, String.toList_ofList, htrim, Text.lower_lower]

/-- The name of a tag is the normal form of what was written. -/
theorem Tag.name_of_ofSpan? {start : Nat} {inner : List Char} {t : Tag}
    (h : Tag.ofSpan? start inner = some t) :
    t.name = Name.normalize (String.ofList (Tag.parts inner).1) := by
  simp only [Tag.ofSpan?, Option.ite_none_left_eq_some, Option.some.injEq] at h
  rw [← h.2]
  simp [Name.normalize]

end TextReveal
