/-!
# Powers

Powers of two and of ten: the bounds of machine words and the places of a decimal number.
-/

namespace Chronicle

/-- A power of two. -/
def twoTo (n : Nat) : Nat := Nat.pow 2 n

/-- A power of ten. -/
def tenTo (n : Nat) : Nat := Nat.pow 10 n

end Chronicle
