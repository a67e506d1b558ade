/-!
Lengths in the UTF-8 encoding. All positions in a text are counted in its bytes.
-/
namespace TextReveal.Text

def width : List Char → Nat
  | [] => 0
  | c :: s => c.utf8Size + width s

end TextReveal.Text
