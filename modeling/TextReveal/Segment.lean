import TextReveal.Text.Width
/-!
A text cut at its square brackets. A span runs from an opening bracket to the first closing bracket
behind it; everything else is gap. An opening bracket that nothing closes is part of the last gap.
-/
namespace TextReveal

inductive Segment where
  | gap (chars : List Char)
  /-- The characters between the brackets. -/
  | span (inner : List Char)
  deriving DecidableEq, Repr

namespace Segment

def chars : Segment → List Char
  | gap cs => cs
  | span inner => '[' :: inner ++ [']']

def width (s : Segment) : Nat :=
  Text.width s.chars

theorem length_lt_of_dropWhile_eq_cons {p : Char → Bool} {s rest : List Char} {c : Char}
    (h : s.dropWhile p = c :: rest) : rest.length < s.length := by
  have := (List.dropWhile_suffix p (l := s)).length_le
  rw [h, List.length_cons] at this
  omega

def cut (s : List Char) : List Segment :=
  match _opened : s.dropWhile (· ≠ '[') with
  | [] => [gap s]
  | _ :: inside =>
    match _closed : inside.dropWhile (· ≠ ']') with
    | [] => [gap s]
    | _ :: rest =>
      gap (s.takeWhile (· ≠ '[')) :: span (inside.takeWhile (· ≠ ']')) :: cut rest
termination_by s.length
decreasing_by
  have := length_lt_of_dropWhile_eq_cons _opened
  have := length_lt_of_dropWhile_eq_cons _closed
  omega

end Segment
end TextReveal
