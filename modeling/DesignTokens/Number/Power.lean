/-!
# Powers of two and of ten

The scales of a float and of a decimal, as natural numbers.
-/

namespace DesignTokens

def twoPow (n : Nat) : Nat :=
  Nat.pow 2 n

def tenPow (n : Nat) : Nat :=
  Nat.pow 10 n

end DesignTokens
