/-!
Powers of the two bases that numbers are kept and written in.
-/
namespace TextReveal.Number

def twoTo (n : Nat) : Nat := Nat.pow 2 n

def tenTo (n : Nat) : Nat := Nat.pow 10 n

end TextReveal.Number
