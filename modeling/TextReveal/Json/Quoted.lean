import TextReveal.Json.Fault
import TextReveal.Text.Width
/-!
Strings in JSON texts, from behind the opening quote on. One that matters is decoded; one that is
skipped needs only escapes of the right form, so half of a surrogate pair may stand alone there.
-/
namespace TextReveal.Json
open Text

def hexValue? (c : Char) : Option Nat :=
  if '0' ≤ c ∧ c ≤ '9' then some (c.toNat - '0'.toNat)
  else if 'a' ≤ c ∧ c ≤ 'f' then some (c.toNat - 'a'.toNat + 10)
  else if 'A' ≤ c ∧ c ≤ 'F' then some (c.toNat - 'A'.toNat + 10)
  else none

/-- The four digits of a numeric escape. Fewer than four bytes are an end, whatever they hold. -/
def readHex (s : List Char) : Except Fault (Nat × List Char) :=
  match s with
  | a :: b :: c :: d :: rest =>
    match hexValue? a, hexValue? b, hexValue? c, hexValue? d with
    | some a, some b, some c, some d => .ok (((a * 16 + b) * 16 + c) * 16 + d, rest)
    | _, _, _, _ => .error .invalidEscape
  | _ => .error (if width s < 4 then .endInString else .invalidEscape)

def escaped? : Char → Option Char
  | '"' => some '"'
  | '\\' => some '\\'
  | '/' => some '/'
  | 'b' => some '\x08'
  | 'f' => some '\x0c'
  | 'n' => some '\n'
  | 'r' => some '\r'
  | 't' => some '\t'
  | _ => none

/-- The second half of a surrogate pair whose first half is `high`. -/
def readLowHalf (high : Nat) : List Char → Except Fault (Char × List Char)
  | [] => .error .endInString
  | '\\' :: [] => .error .endInString
  | '\\' :: 'u' :: s =>
    (readHex s).bind fun (low, rest) =>
      if low < 0xDC00 ∨ 0xDFFF < low then .error .loneSurrogate
      else .ok (Char.ofNat (0x10000 + (high - 0xD800) * 0x400 + (low - 0xDC00)), rest)
  | _ => .error .unpairedSurrogate

/-- The character that an escape stands for, from behind the backslash on. -/
def readEscape : List Char → Except Fault (Char × List Char)
  | [] => .error .endInString
  | 'u' :: s =>
    (readHex s).bind fun (n, rest) =>
      if 0xDC00 ≤ n ∧ n ≤ 0xDFFF then .error .loneSurrogate
      else if 0xD800 ≤ n ∧ n ≤ 0xDBFF then readLowHalf n rest
      else .ok (Char.ofNat n, rest)
  | c :: s =>
    match escaped? c with
    | some c => .ok (c, s)
    | none => .error .invalidEscape

theorem readHex_length_lt {s : List Char} {n : Nat} {rest : List Char}
    (h : readHex s = .ok (n, rest)) : rest.length < s.length := by
  unfold readHex at h
  split at h
  · split at h <;> simp_all
    omega
  · simp at h

theorem readLowHalf_length_lt {high : Nat} {s : List Char} {c : Char} {rest : List Char}
    (h : readLowHalf high s = .ok (c, rest)) : rest.length < s.length := by
  unfold readLowHalf at h
  split at h <;> try simp at h
  rename_i s
  cases hx : readHex s with
  | error e => simp [hx, Except.bind] at h
  | ok p =>
    have := readHex_length_lt hx
    simp only [hx, Except.bind] at h
    split at h <;> simp_all
    omega

theorem readEscape_length_lt {s : List Char} {c : Char} {rest : List Char}
    (h : readEscape s = .ok (c, rest)) : rest.length < s.length := by
  unfold readEscape at h
  split at h
  · simp at h
  · rename_i s
    cases hx : readHex s with
    | error e => simp [hx, Except.bind] at h
    | ok p =>
      have := readHex_length_lt hx
      simp only [hx, Except.bind] at h
      split at h
      · simp at h
      · split at h
        · have := readLowHalf_length_lt h
          simp
          omega
        · simp_all
          omega
  · split at h <;> simp_all

def readString (s : List Char) : Except Fault (List Char × List Char) :=
  match s with
  | [] => .error .endInString
  | '"' :: rest => .ok ([], rest)
  | '\\' :: tail =>
    match _h : readEscape tail with
    | .error e => .error e
    | .ok (c, rest) => (readString rest).map fun (cs, rest) => (c :: cs, rest)
  | c :: tail =>
    if c.toNat < 0x20 then .error .controlCharacter
    else (readString tail).map fun (cs, rest) => (c :: cs, rest)
termination_by s.length
decreasing_by
  · have := readEscape_length_lt _h
    simp
    omega
  · simp

def skipEscape : List Char → Except Fault (List Char)
  | [] => .error .endInString
  | 'u' :: s => (readHex s).map (·.2)
  | c :: s => if (escaped? c).isSome then .ok s else .error .invalidEscape

theorem skipEscape_length_lt {s rest : List Char} (h : skipEscape s = .ok rest) :
    rest.length < s.length := by
  unfold skipEscape at h
  split at h
  · simp at h
  · rename_i s
    cases hx : readHex s with
    | error e => simp [hx, Except.map] at h
    | ok p =>
      have := readHex_length_lt hx
      simp only [hx, Except.map, Except.ok.injEq] at h
      subst h
      simp
      omega
  · split at h <;> simp_all

def skipString (s : List Char) : Except Fault (List Char) :=
  match s with
  | [] => .error .endInString
  | '"' :: rest => .ok rest
  | '\\' :: tail =>
    match _h : skipEscape tail with
    | .error e => .error e
    | .ok rest => skipString rest
  | c :: tail => if c.toNat < 0x20 then .error .controlCharacter else skipString tail
termination_by s.length
decreasing_by
  · have := skipEscape_length_lt _h
    simp
    omega
  · simp

end TextReveal.Json
