/-!
# Arithmetic faults

The computations with colors that have no result.
-/

namespace DesignTokens

inductive ArithmeticFault where
  /-- an infinite number has no integer below it -/
  | infiniteToInteger
  /-- what is not a number has no integer below it -/
  | notANumberToInteger
  /-- an integer beyond the largest float -/
  | integerTooLarge
  /-- a quotient of integers beyond the largest float -/
  | quotientTooLarge
  /-- a quotient with divisor zero -/
  | divisionByZero
  /-- a remainder of an infinite number -/
  | outsideDomain
deriving DecidableEq, Repr

def ArithmeticFault.message : ArithmeticFault → String
  | .infiniteToInteger => "cannot convert float infinity to integer"
  | .notANumberToInteger => "cannot convert float NaN to integer"
  | .integerTooLarge => "int too large to convert to float"
  | .quotientTooLarge => "integer division result too large for a float"
  | .divisionByZero => "float division by zero"
  | .outsideDomain => "math domain error"

end DesignTokens
