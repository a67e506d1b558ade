import TextReveal.Config.Reader
import TextReveal.Config.Writer
import TextReveal.Proofs.Spelling
/-!
Configurations written and read again. What is written is read as the configuration it was written
of, unless the speed is not finite: that is written as null, which is no speed.
-/
namespace TextReveal
open Number Json

namespace Json

/-- A character that stands for itself between quotes. -/
def IsPlain (c : Char) : Prop :=
  c ≠ '"' ∧ c ≠ '\\' ∧ 0x20 ≤ c.toNat

instance (c : Char) : Decidable (IsPlain c) :=
  inferInstanceAs (Decidable (c ≠ '"' ∧ c ≠ '\\' ∧ 0x20 ≤ c.toNat))

-- Decided along the text, not over all characters there are.
instance (text : List Char) : Decidable (∀ c ∈ text, IsPlain c) :=
  List.decidableBAll IsPlain text

theorem readString_of_plain {text s : List Char} (h : ∀ c ∈ text, IsPlain c) :
    readString (text ++ '"' :: s) = .ok (text, s) := by
  induction text with
  | nil => rw [List.nil_append, readString]
  | cons c text ih =>
    obtain ⟨⟨hquote, hescape, hcontrol⟩, htext⟩ := List.forall_mem_cons.mp h
    rw [List.cons_append, readString, if_neg hcontrol.not_gt, ih htext]
    · rfl
    · exact hquote
    · exact hescape

theorem exists_digit_of_readNumeral {negative : Bool} {s : List Char}
    {result : Numeral × List Char} (h : readNumeral negative s = .ok result) :
    ∃ c, s.head? = some c ∧ c.isDigit := by
  cases s with
  | nil => cases h
  | cons c s =>
    refine ⟨c, rfl, ?_⟩
    by_contra hc
    have hnone : (c :: s).takeWhile Char.isDigit = [] := List.takeWhile_cons_of_neg hc
    simp [readNumeral, hnone] at h

theorem bind_eq_ok {α β : Type} {x : Except Fault α} {f : α → Except Fault β} {b : β} :
    x.bind f = .ok b ↔ ∃ a, x = .ok a ∧ f a = .ok b := by
  cases x <;> simp [Except.bind]

theorem map_eq_ok {α β : Type} {x : Except Fault α} {f : α → β} {b : β} :
    x.map f = .ok b ↔ ∃ a, x = .ok a ∧ f a = b := by
  cases x <;> simp [Except.map]

theorem absorb_le {n : Nat} (digits : List Char) (h : n ≤ largestWord) :
    (absorb n digits).1 ≤ largestWord := by
  induction digits generalizing n with
  | nil => exact h
  | cons c digits ih =>
    unfold absorb
    dsimp only
    split
    next hfits => exact ih hfits
    next => exact h

/-- A whole number that is read fits 64 bits. -/
theorem le_of_readNumeral {negative : Bool} {s rest : List Char} {n : Nat}
    (h : readNumeral negative s = .ok (.natural n, rest)) : n ≤ largestWord := by
  unfold readNumeral at h
  dsimp only at h
  split at h
  · cases h
  split at h
  · cases h
  split at h
  · split at h
    · cases h
    · obtain ⟨⟨x, rest'⟩, -, h⟩ := map_eq_ok.mp h
      cases h
  · split at h
    · split at h
      · cases h
        exact absorb_le _ (Nat.zero_le _)
      · split at h <;> cases h
    · obtain ⟨⟨x, rest'⟩, -, h⟩ := map_eq_ok.mp h
      cases h

end Json

namespace Config

/-- The digits of a finite speed, without its sign. -/
def speedDigits (speed : Single) : List Char :=
  if speed.magnitude = 0 then ['0', '.', '0'] else (speed.shortest false).write .stored

theorem toList_writeSpeed {speed : Single} (h : speed.isFinite) : (writeSpeed speed).toList =
    (if speed.negative then ['-'] else []) ++ speedDigits speed := by
  have hnumber : ¬speed.isNaN := by
    simpa [Binary.isNaN] using (of_decide_eq_true h).le
  have hsign : (if speed.negative then "-" else "").toList =
      if speed.negative then ['-'] else [] := by
    cases speed.negative <;> rfl
  rw [writeSpeed, if_pos h, Binary.write, if_neg hnumber, h, Bool.not_true,
    if_neg Bool.false_ne_true, speedDigits]
  split
  · rw [String.toList_append, hsign]
    rfl
  · rw [String.toList_append, hsign, String.toList_ofList]
    rfl

theorem shift_zero : shift (.ofNat 0) (-1) = .ok .zero := by
  have hzero : (.ofNat 0 : Double) = .zero := Binary.ofRatio_zero ..
  rw [shift, if_pos (by decide), if_neg (by decide), hzero, Binary.scaleDown,
    Binary.numerator_of_zero rfl, Binary.ofRatio_zero]
  rfl

/-- The digits of a finite speed are read as a double that narrows to it. -/
theorem readNumeral_speedDigits {speed : Single} (h : speed.isFinite) {s : List Char}
    (hs : Stops s) : ∃ n, readNumeral speed.negative (speedDigits speed ++ s) = .ok (n, s) ∧
      n.toSingle = speed := by
  obtain ⟨negative, magnitude⟩ := speed
  unfold speedDigits
  split
  next hzero =>
    obtain rfl : magnitude = 0 := hzero
    have hread : readNumeral negative (['0'] ++ '.' :: (['0'] ++ s)) =
        (readScaled negative 0 (-1) s).map _ :=
      readNumeral_fraction isWhole_zero isWhole_zero.digits (by decide) (fun c hc => (hs c hc).1)
        (by decide)
    rw [map_readScaled hs, shift_zero] at hread
    refine ⟨_, hread, ?_⟩
    have hfinite : (signed negative .zero : Double).isFinite := rfl
    show (signed negative .zero).convert = _
    rw [Binary.convert, if_pos hfinite, Binary.numerator_of_zero rfl, Binary.ofRatio_zero]
    rfl
  next hpos =>
    have hpos' := Nat.pos_of_ne_zero hpos
    obtain ⟨hdigits, hfew, hlow, hhigh⟩ := Binary.shortest_bounds h hpos' false
    obtain ⟨n, p, hspelled, hread⟩ :=
      readNumeral_write negative hdigits hfew hlow hhigh hs
    obtain ⟨y, hy, -⟩ := shift_spec hspelled.pos hspelled.few hspelled.moderate
    refine ⟨.real (signed negative y), ?_, Binary.convert_of_shortest h hpos' hspelled hy⟩
    rw [hread, hy]
    rfl

theorem readNumber_of_digit (expected : String) {s : List Char} {c : Char}
    (hhead : s.head? = some c) (hc : c.isDigit) :
    readNumber expected (' ' :: s) = readNumeral false s := by
  obtain ⟨rest, rfl⟩ := List.head?_eq_some_iff.mp hhead
  have hgap : ¬isGap c := by
    simp only [isGap, Bool.or_eq_true, decide_eq_true_eq]
    rintro (((rfl | rfl) | rfl) | rfl) <;> cases hc
  have hminus : c ≠ '-' := by
    rintro rfl
    cases hc
  have hstart : dropGaps (' ' :: c :: rest) = c :: rest := by
    show (c :: rest).dropWhile isGap = _
    rw [List.dropWhile_cons_of_neg hgap]
  unfold readNumber
  rw [hstart]
  split
  next h => cases h
  next h => exact absurd (List.cons.inj h).1 hminus
  next h => exact if_pos hc

/-- A finite speed is read as it was. -/
theorem readSpeed_writeSpeed {speed : Single} (h : speed.isFinite) {s : List Char} (hs : Stops s) :
    readSpeed (' ' :: ((writeSpeed speed).toList ++ s)) = .ok (speed, s) := by
  obtain ⟨n, hread, hn⟩ := readNumeral_speedDigits h hs
  have hnumber : readNumber "f32" (' ' :: ((writeSpeed speed).toList ++ s)) = .ok (n, s) := by
    rw [toList_writeSpeed h]
    cases hsign : speed.negative with
    | true =>
      rw [hsign] at hread
      exact hread
    | false =>
      rw [hsign] at hread
      obtain ⟨c, hhead, hc⟩ := exists_digit_of_readNumeral hread
      exact (readNumber_of_digit "f32" hhead hc).trans hread
  rw [readSpeed, hnumber, ← hn]
  rfl

/-- Any other speed is read as what it was written as. -/
theorem readSpeed_of_not_finite {speed : Single} (h : ¬speed.isFinite) (s : List Char) :
    readSpeed (' ' :: ((writeSpeed speed).toList ++ s)) = .error (.wrongType .null "f32") := by
  rw [writeSpeed, if_neg h]
  rfl

theorem readPolicy_name (policy : UnknownTags) (s : List Char) :
    readPolicy (' ' :: '"' :: (policy.name.toList ++ '"' :: s)) = .ok (policy, s) := by
  have hname : ∀ c ∈ policy.name.toList, IsPlain c := by
    cases policy <;> decide
  have hpolicy : UnknownTags.ofName? (String.ofList policy.name.toList) = some policy := by
    rw [String.ofList_toList]
    cases policy <;> rfl
  show readPolicyName (policy.name.toList ++ '"' :: s) = _
  simp only [readPolicyName, readString_of_plain hname, Except.bind, hpolicy]

theorem readCapacity_digits {n : Nat} (hn : n ≤ largestWord) {s : List Char} (hs : Stops s) :
    readCapacity (' ' :: (Nat.toDigits 10 n ++ s)) = .ok (n, s) := by
  have hread : readNumeral false (Nat.toDigits 10 n ++ s) = .ok (.natural n, s) := by
    have hvalue : Nat.ofDigitChars 10 (Nat.toDigits 10 n) 0 = n := Nat.ofDigitChars_ten_toDigits
    rw [readNumeral_whole (isWhole_toDigits n) hs (hvalue.trans_le hn), hvalue]
  obtain ⟨c, hhead, hc⟩ := exists_digit_of_readNumeral hread
  rw [readCapacity, readNumber_of_digit "usize" hhead hc, hread]
  rfl

/-- A field of a written configuration up to its value. -/
def opening (key : String) (value : List Char) : List Char :=
  '\n' :: ' ' :: ' ' :: '"' :: (key.toList ++ '"' :: ':' :: ' ' :: value)

theorem nextKey_first {key : String} (h : ∀ c ∈ key.toList, IsPlain c) (value : List Char) :
    nextKey true (opening key value) = .ok (some key.toList, ':' :: ' ' :: value) := by
  show (readString (key.toList ++ '"' :: _)).map _ = _
  rw [readString_of_plain h]
  rfl

theorem nextKey_next {key : String} (h : ∀ c ∈ key.toList, IsPlain c) (value : List Char) :
    nextKey false (',' :: opening key value) = .ok (some key.toList, ':' :: ' ' :: value) := by
  show (readString (key.toList ++ '"' :: _)).map _ = _
  rw [readString_of_plain h]
  rfl

section
variable (speed : Option Single) (policy : Option UnknownTags) (capacity : Option Nat)
  (s : List Char)

theorem readField_speed : readField ⟨none, policy, capacity⟩ "default_speed" (':' :: s) =
    (readSpeed s).map fun (x, rest) => (⟨x, policy, capacity⟩, rest) :=
  rfl

theorem readField_policy : readField ⟨speed, none, capacity⟩ "unknown_tags" (':' :: s) =
    (readPolicy s).map fun (x, rest) => (⟨speed, x, capacity⟩, rest) :=
  rfl

theorem readField_capacity : readField ⟨speed, policy, none⟩ "event_capacity" (':' :: s) =
    (readCapacity s).map fun (x, rest) => (⟨speed, policy, x⟩, rest) :=
  rfl

end

theorem readFields_succ {first : Bool} {d : Draft} {key : String} {s rest : List Char}
    (h : nextKey first s = .ok (some key.toList, rest)) (budget : Nat) :
    readFields (budget + 1) first d s = (readField d key rest).bind fun (d, rest) =>
      readFields budget false d rest := by
  rw [readFields.eq_def, h]
  show (readField d (String.ofList key.toList) rest).bind _ = _
  rw [String.ofList_toList]

theorem toList_write (config : Config) : config.write.toList =
    '\x7b' :: opening "default_speed" ((writeSpeed config.defaultSpeed).toList ++
      ',' :: opening "unknown_tags" ('"' :: (config.unknownTags.name.toList ++
        '"' :: ',' :: opening "event_capacity" (Nat.toDigits 10 config.eventCapacity ++
          ['\n', '\x7d'])))) := by
  have hspeed : "\x7b\n  \"default_speed\": ".toList = '\x7b' :: opening "default_speed" [] := rfl
  have htags : ",\n  \"unknown_tags\": \"".toList = ',' :: opening "unknown_tags" ['"'] := rfl
  have hcapacity : "\",\n  \"event_capacity\": ".toList =
    '"' :: ',' :: opening "event_capacity" [] := rfl
  have hend : "\n\x7d".toList = ['\n', '\x7d'] := rfl
  have hdigits : (toString config.eventCapacity).toList = Nat.toDigits 10 config.eventCapacity := by
    rw [Nat.toString_eq_repr, Nat.toList_repr]
  delta write
  simp only [String.toList_append, hspeed, htags, hcapacity, hend, hdigits, opening,
    List.append_assoc, List.cons_append, List.nil_append]

theorem stops_comma (s : List Char) : Stops (',' :: s) := by
  rintro c ⟨⟩
  decide

theorem stops_newline (s : List Char) : Stops ('\n' :: s) := by
  rintro c ⟨⟩
  decide

section
variable {config : Config}

/-- A written configuration, read up to the value of its speed. -/
theorem read_write_eq (config : Config) : ∃ budget, read config.write =
    (((readSpeed (' ' :: ((writeSpeed config.defaultSpeed).toList ++
      ',' :: opening "unknown_tags" ('"' :: (config.unknownTags.name.toList ++
        '"' :: ',' :: opening "event_capacity" (Nat.toDigits 10 config.eventCapacity ++
          ['\n', '\x7d'])))))).bind fun (x, rest) =>
      readFields (budget + 2) false { defaultSpeed := some x } rest).bind fun (d, rest) =>
        if dropGaps rest = [] then .ok d.config else .error .trailingCharacters) := by
  have hdraft : readDraft (dropGaps config.write.toList) =
      readFields (config.write.toList.tail.length) true {} config.write.toList.tail := by
    rw [toList_write]
    rfl
  have hlong : 3 ≤ config.write.toList.tail.length := by
    rw [toList_write]
    simp [opening]
  obtain ⟨budget, hbudget⟩ := Nat.exists_eq_add_of_le' hlong
  refine ⟨budget, ?_⟩
  rw [read, hdraft, hbudget, toList_write, List.tail_cons,
    readFields_succ (nextKey_first (by decide) _), readField_speed]
  cases readSpeed _ <;> rfl

/-- The fields of a written configuration behind its speed. -/
theorem readFields_behind_speed (budget : Nat) (hcapacity : config.eventCapacity ≤ largestWord) :
    readFields (budget + 2) false { defaultSpeed := some config.defaultSpeed }
        (',' :: opening "unknown_tags" ('"' :: (config.unknownTags.name.toList ++
          '"' :: ',' :: opening "event_capacity" (Nat.toDigits 10 config.eventCapacity ++
            ['\n', '\x7d'])))) =
      .ok (⟨some config.defaultSpeed, some config.unknownTags, some config.eventCapacity⟩, []) := by
  have hpolicy (s : List Char) : readField { defaultSpeed := some config.defaultSpeed }
      "unknown_tags" (':' :: ' ' :: '"' :: (config.unknownTags.name.toList ++ '"' :: s)) =
        .ok (⟨some config.defaultSpeed, some config.unknownTags, none⟩, s) := by
    rw [readField_policy, readPolicy_name]
    rfl
  have hcount : readField ⟨some config.defaultSpeed, some config.unknownTags, none⟩
      "event_capacity" (':' :: ' ' :: (Nat.toDigits 10 config.eventCapacity ++ ['\n', '\x7d'])) =
        .ok (⟨some config.defaultSpeed, some config.unknownTags, some config.eventCapacity⟩,
          ['\n', '\x7d']) := by
    rw [readField_capacity, readCapacity_digits hcapacity (stops_newline _)]
    rfl
  rw [readFields_succ (nextKey_next (by decide) _), hpolicy]
  show readFields (budget + 1) false _ _ = _
  rw [readFields_succ (nextKey_next (by decide) _), hcount]
  show readFields budget false _ _ = _
  rw [readFields.eq_def]
  rfl

/-- A configuration with a finite speed is read as it was written. -/
theorem read_write_of_finite (hspeed : config.defaultSpeed.isFinite)
    (hcapacity : config.eventCapacity ≤ largestWord) : read config.write = .ok config := by
  obtain ⟨budget, hread⟩ := read_write_eq config
  rw [hread, readSpeed_writeSpeed hspeed (stops_comma _)]
  show (readFields (budget + 2) false _ _).bind _ = _
  rw [readFields_behind_speed budget hcapacity]
  rfl

/-- A speed that is not finite is written as null, and that is no speed. -/
theorem read_write_of_not_finite (hspeed : ¬config.defaultSpeed.isFinite) :
    read config.write = .error (.wrongType .null "f32") := by
  obtain ⟨budget, hread⟩ := read_write_eq config
  rw [hread, readSpeed_of_not_finite hspeed]
  rfl

end

/-- The capacity of a draft, if it has one, fits 64 bits. -/
def Draft.Fits (d : Draft) : Prop :=
  ∀ n, d.eventCapacity = some n → n ≤ largestWord

theorem le_of_readCapacity {s rest : List Char} {n : Nat} (h : readCapacity s = .ok (n, rest)) :
    n ≤ largestWord := by
  rw [readCapacity, bind_eq_ok] at h
  obtain ⟨⟨numeral, rest'⟩, hread, h⟩ := h
  cases numeral with
  | natural m =>
    cases h
    unfold readNumber at hread
    split at hread
    · cases hread
    · exact le_of_readNumeral hread
    · split at hread
      · exact le_of_readNumeral hread
      · cases hread
  | negative m => cases h
  | real x => cases h

theorem le_of_once {field : Option Nat} {name : String} {s rest : List Char} {n : Nat}
    (h : once name field s readCapacity = .ok (n, rest)) : n ≤ largestWord := by
  unfold once at h
  split at h
  · cases h
  · obtain ⟨s', -, h⟩ := bind_eq_ok.mp h
    exact le_of_readCapacity h

theorem Draft.Fits.of_readField {d d' : Draft} {key : String} {s rest : List Char} (hd : d.Fits)
    (h : readField d key s = .ok (d', rest)) : d'.Fits := by
  unfold readField at h
  split at h
  · obtain ⟨⟨speed, rest'⟩, -, h⟩ := map_eq_ok.mp h
    cases h
    exact hd
  · obtain ⟨⟨policy, rest'⟩, -, h⟩ := map_eq_ok.mp h
    cases h
    exact hd
  · obtain ⟨⟨capacity, rest'⟩, hread, h⟩ := map_eq_ok.mp h
    cases h
    rintro n ⟨⟩
    exact le_of_once hread
  · obtain ⟨rest', -, h⟩ := map_eq_ok.mp h
    cases h
    exact hd

theorem Draft.Fits.of_readFields {budget : Nat} {first : Bool} {d d' : Draft} {s rest : List Char}
    (hd : d.Fits) (h : readFields budget first d s = .ok (d', rest)) : d'.Fits := by
  induction budget generalizing first d s with
  | zero =>
    rw [readFields.eq_def] at h
    split at h
    · cases h
    · cases h
      exact hd
    · cases h
    next hzero _ => cases hzero
  | succ budget ih =>
    rw [readFields.eq_def] at h
    split at h
    · cases h
    · cases h
      exact hd
    · cases h
    next hsucc _ =>
      obtain ⟨⟨d₁, rest₁⟩, hfield, h⟩ := bind_eq_ok.mp h
      cases hsucc
      exact ih (hd.of_readField hfield) h

theorem le_of_readElement {first : Bool} {s rest : List Char} {n : Nat}
    (h : readElement first readCapacity s = .ok (some n, rest)) : n ≤ largestWord := by
  obtain ⟨⟨more, s'⟩, -, h⟩ := bind_eq_ok.mp h
  cases more with
  | true =>
    obtain ⟨⟨m, rest'⟩, hread, h⟩ := map_eq_ok.mp h
    cases h
    exact le_of_readCapacity hread
  | false => cases h

theorem Draft.Fits.of_readList {d : Draft} {s rest : List Char}
    (h : readList s = .ok (d, rest)) : d.Fits := by
  unfold readList at h
  obtain ⟨⟨speed, s₁⟩, -, h⟩ := bind_eq_ok.mp h
  obtain ⟨⟨policy, s₂⟩, -, h⟩ := bind_eq_ok.mp h
  obtain ⟨⟨capacity, s₃⟩, hread, h⟩ := bind_eq_ok.mp h
  obtain ⟨s₄, -, h⟩ := bind_eq_ok.mp h
  cases h
  rintro n ⟨⟩
  exact le_of_readElement hread

theorem capacity_le_of_read {json : String} {config : Config} (h : read json = .ok config) :
    config.eventCapacity ≤ largestWord := by
  obtain ⟨⟨d, rest⟩, hread, h⟩ := bind_eq_ok.mp h
  have hd : d.Fits := by
    unfold readDraft at hread
    split at hread
    · cases hread
    · exact Draft.Fits.of_readFields (by rintro n ⟨⟩) hread
    · exact Draft.Fits.of_readList hread
    · cases hread
  dsimp only at h
  split at h
  · cases h
    cases hcapacity : d.eventCapacity with
    | none =>
      rw [Draft.config, hcapacity]
      show 64 ≤ largestWord
      decide
    | some n =>
      rw [Draft.config, hcapacity]
      exact hd n hcapacity
  · cases h

/-- Of every text that is accepted the configuration is written so that it is read as the same one
again, unless its speed is not finite. Then it is written so that it is not accepted at all. -/
theorem rereads {json : String} {config : Config} (h : read json = .ok config) :
    read config.write = if config.defaultSpeed.isFinite then .ok config
      else .error (.wrongType .null "f32") := by
  split
  next hspeed => exact read_write_of_finite hspeed (capacity_le_of_read h)
  next hspeed => exact read_write_of_not_finite hspeed

/-- A list, a tenth of a second, and a policy spelled as an object. -/
theorem rereads_tenth : ∃ config, read "[1e-1, \x7b\"literal\": null\x7d]" = .ok config ∧
    config = ⟨⟨false, 0x3DCCCCCD⟩, .literal, 64⟩ ∧ read config.write = .ok config := by
  have h : read "[1e-1, \x7b\"literal\": null\x7d]" =
      .ok ⟨⟨false, 0x3DCCCCCD⟩, .literal, 64⟩ := by
    decide +kernel
  exact ⟨_, h, rfl, (rereads h).trans (if_pos rfl)⟩

/-- A speed beyond the largest single is accepted, and its configuration is not read again. -/
theorem not_rereads : ∃ json config, read json = .ok config ∧
    read config.write = .error (.wrongType .null "f32") :=
  ⟨"\x7b\"default_speed\": 1e39\x7d", { defaultSpeed := .infinity false }, by decide +kernel,
    read_write_of_not_finite (by decide)⟩

end Config
end TextReveal
