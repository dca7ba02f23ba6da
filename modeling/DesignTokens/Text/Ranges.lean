/-!
# Ranges of code points

A character property is a list of closed ranges of code points.
-/

namespace DesignTokens

abbrev Ranges := List (Nat × Nat)

namespace Ranges

def holds (rs : Ranges) (n : Nat) : Bool :=
  rs.any fun r => r.1 ≤ n && n ≤ r.2

end Ranges
end DesignTokens
