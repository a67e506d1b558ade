import TextReveal.Json.Quoted
import TextReveal.Number.Literal
/-!
Values that nobody asked for. They are walked over from left to right, with the open lists and
objects on a stack, and have to be JSON all the same.
-/
namespace TextReveal.Json

def isGap (c : Char) : Bool :=
  c = ' ' || c = '\n' || c = '\t' || c = '\r'

def dropGaps (s : List Char) : List Char :=
  s.dropWhile isGap

/-- The rest of a word whose first letter is read. -/
def readWord : List Char → List Char → Except Fault (List Char)
  | [], s => .ok s
  | _ :: _, [] => .error .endInValue
  | w :: word, c :: s => if c = w then readWord word s else .error .expectedWord

def skipDigits (s : List Char) : Except Fault (List Char) :=
  if s.takeWhile Char.isDigit = [] then .error .invalidNumber else .ok (s.dropWhile Char.isDigit)

def skipPower (s : List Char) : Except Fault (List Char) :=
  match s with
  | c :: rest => if c = 'e' ∨ c = 'E' then skipDigits (Number.takeSign rest).2 else .ok s
  | [] => .ok s

def skipFraction (s : List Char) : Except Fault (List Char) :=
  match s with
  | '.' :: rest => (skipDigits rest).bind skipPower
  | _ => skipPower s

/-- A number without a sign whose first character is `c`. -/
def skipNumber (c : Char) (s : List Char) : Except Fault (List Char) :=
  if c = '0' then
    if s.takeWhile Char.isDigit = [] then skipFraction s else .error .invalidNumber
  else if c.isDigit then skipFraction (s.dropWhile Char.isDigit)
  else .error .invalidNumber

def skipNegative : List Char → Except Fault (List Char)
  | [] => .error .invalidNumber
  | c :: s => skipNumber c s

/-- A value that is neither list nor object and starts with `c`. -/
def skipScalar (c : Char) (s : List Char) : Except Fault (List Char) :=
  if c = '"' then skipString s
  else if c = '-' then skipNegative s
  else if c.isDigit then skipNumber c s
  else if c = 'n' then readWord ['u', 'l', 'l'] s
  else if c = 't' then readWord ['r', 'u', 'e'] s
  else if c = 'f' then readWord ['a', 'l', 's', 'e'] s
  else .error .expectedValue

inductive Frame where
  | list
  | object
  deriving DecidableEq, Repr

def Frame.closing : Frame → Char
  | .list => ']'
  | .object => '\x7d'

def Frame.ended : Frame → Fault
  | .list => .endInList
  | .object => .endInObject

def Frame.expectedEnd : Frame → Fault
  | .list => .expectedListEnd
  | .object => .expectedObjectEnd

/-- What precedes a value inside a frame: nothing in a list, a key in an object. -/
def Frame.skipKey (frame : Frame) (s : List Char) : Except Fault (List Char) :=
  match frame with
  | .list => .ok s
  | .object =>
    match dropGaps s with
    | [] => .error .endInObject
    | '"' :: rest =>
      (skipString rest).bind fun rest =>
        match dropGaps rest with
        | [] => .error .endInObject
        | ':' :: rest => .ok rest
        | _ => .error .expectedColon
    | _ => .error .keyNotString

theorem length_dropGaps_le (s : List Char) : (dropGaps s).length ≤ s.length :=
  (List.dropWhile_suffix isGap).length_le

theorem length_of_dropGaps_eq_cons {s : List Char} {c : Char} {rest : List Char}
    (h : dropGaps s = c :: rest) : rest.length < s.length := by
  have := length_dropGaps_le s
  rw [h, List.length_cons] at this
  omega

theorem length_le_of_readWord {word s rest : List Char} (h : readWord word s = .ok rest) :
    rest.length ≤ s.length := by
  fun_induction readWord word s with
  | case1 => simp_all
  | case2 => simp at h
  | case3 word c s ih => have := ih h; simp; omega
  | case4 => simp at h

theorem length_le_of_skipDigits {s rest : List Char} (h : skipDigits s = .ok rest) :
    rest.length ≤ s.length := by
  unfold skipDigits at h
  split at h
  · simp at h
  · cases h
    exact (List.dropWhile_suffix Char.isDigit).length_le

theorem length_le_of_skipString {s rest : List Char} (h : skipString s = .ok rest) :
    rest.length ≤ s.length := by
  fun_induction skipString s with
  | case1 => simp at h
  | case2 => simp_all
  | case3 => simp at h
  | case4 tail rest' hx ih =>
    have := skipEscape_length_lt hx
    have := ih h
    simp
    omega
  | case5 => simp at h
  | case6 c tail _ _ _ ih => have := ih h; simp; omega

theorem length_takeSign_le (s : List Char) : (Number.takeSign s).2.length ≤ s.length := by
  unfold Number.takeSign
  split <;> simp

theorem length_le_of_skipPower {s rest : List Char} (h : skipPower s = .ok rest) :
    rest.length ≤ s.length := by
  unfold skipPower at h
  split at h
  · rename_i c tail
    split at h
    · have := length_le_of_skipDigits h
      have := length_takeSign_le tail
      simp
      omega
    · cases h
      simp
  · cases h
    simp

theorem length_le_of_bind {r : Except Fault (List Char)} {f : List Char → Except Fault (List Char)}
    {rest : List Char} {n : Nat} (h : r.bind f = .ok rest)
    (hr : ∀ t, r = .ok t → t.length ≤ n) (hf : ∀ t, f t = .ok rest → rest.length ≤ t.length) :
    rest.length ≤ n := by
  cases r with
  | error e => simp [Except.bind] at h
  | ok t => exact Nat.le_trans (hf t h) (hr t rfl)

theorem length_le_of_skipFraction {s rest : List Char} (h : skipFraction s = .ok rest) :
    rest.length ≤ s.length := by
  unfold skipFraction at h
  split at h
  · have := length_le_of_bind h (fun _ => length_le_of_skipDigits)
      (fun _ => length_le_of_skipPower)
    simp
    omega
  · exact length_le_of_skipPower h

theorem length_le_of_skipNumber {c : Char} {s rest : List Char}
    (h : skipNumber c s = .ok rest) : rest.length ≤ s.length := by
  unfold skipNumber at h
  split at h
  · split at h
    · exact length_le_of_skipFraction h
    · simp at h
  · split at h
    · exact Nat.le_trans (length_le_of_skipFraction h)
        (List.dropWhile_suffix Char.isDigit).length_le
    · simp at h

theorem length_le_of_skipNegative {s rest : List Char} (h : skipNegative s = .ok rest) :
    rest.length ≤ s.length := by
  unfold skipNegative at h
  split at h
  · simp at h
  · have := length_le_of_skipNumber h
    simp
    omega

theorem length_le_of_skipScalar {c : Char} {s rest : List Char} (h : skipScalar c s = .ok rest) :
    rest.length ≤ s.length := by
  unfold skipScalar at h
  repeat' split at h
  · exact length_le_of_skipString h
  · exact length_le_of_skipNegative h
  · exact length_le_of_skipNumber h
  · exact length_le_of_readWord h
  · exact length_le_of_readWord h
  · exact length_le_of_readWord h
  · simp at h

theorem length_le_of_skipKey {frame : Frame} {s rest : List Char}
    (h : frame.skipKey s = .ok rest) : rest.length ≤ s.length := by
  unfold Frame.skipKey at h
  split at h
  · simp_all
  · split at h
    · simp at h
    · rename_i tail hs
      have := length_of_dropGaps_eq_cons hs
      have := length_le_of_bind h (n := tail.length) (fun _ => length_le_of_skipString) (by
        intro t ht
        split at ht
        · simp at ht
        · rename_i hr
          cases ht
          exact Nat.le_of_lt (length_of_dropGaps_eq_cons hr)
        · simp at ht)
      omega
    · simp at h

mutual

/-- Walks over a value inside the open frames, and then to the end of the outermost of them. -/
def skipValue (frames : List Frame) (s : List Char) : Except Fault (List Char) :=
  match _gaps : dropGaps s with
  | [] => .error .endInValue
  | '[' :: rest => skipInside .list frames false rest
  | '\x7b' :: rest => skipInside .object frames false rest
  | c :: tail =>
    match _taken : skipScalar c tail, frames with
    | .error e, _ => .error e
    | .ok rest, [] => .ok rest
    | .ok rest, frame :: frames => skipInside frame frames true rest
termination_by (s.length, 0)
decreasing_by
  all_goals have := length_of_dropGaps_eq_cons _gaps
  · exact Prod.Lex.left _ _ (by assumption)
  · exact Prod.Lex.left _ _ (by assumption)
  · have := length_le_of_skipScalar _taken
    exact Prod.Lex.left _ _ (by omega)

/-- Walks on inside a frame, behind one of its values if `comma`, else from its start. -/
def skipInside (frame : Frame) (frames : List Frame) (comma : Bool) (s : List Char) :
    Except Fault (List Char) :=
  match _gaps : dropGaps s with
  | [] => .error frame.ended
  | c :: rest =>
    if c = frame.closing then
      match frames with
      | [] => .ok rest
      | frame :: frames => skipInside frame frames true rest
    else if comma ∧ c ≠ ',' then .error frame.expectedEnd
    else
      match _taken : frame.skipKey (if comma then rest else c :: rest) with
      | .error e => .error e
      | .ok rest => skipValue (frame :: frames) rest
termination_by (s.length, 1)
decreasing_by
  all_goals have := length_of_dropGaps_eq_cons _gaps
  · exact Prod.Lex.left _ _ (by assumption)
  · have taken := length_le_of_skipKey _taken
    have := length_dropGaps_le s
    rw [_gaps] at this
    split at taken <;> simp only [List.length_cons] at *
    · exact Prod.Lex.left _ _ (by omega)
    · rcases Nat.lt_or_eq_of_le (Nat.le_trans taken this) with h | h
      · exact Prod.Lex.left _ _ h
      · rw [h]
        exact Prod.Lex.right _ Nat.zero_lt_one

end

end TextReveal.Json
