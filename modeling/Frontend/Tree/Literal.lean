import Frontend.Token.Rule

/-! # Values of literals

The integer a number token denotes, and the text a string token holds.
-/

namespace Frontend.Literal

/-- The natural number denoted by one or more decimal digits. -/
def natural? (digits : List Char) : Option Nat :=
  if digits ≠ [] ∧ digits.all isDigit then
    some (digits.foldl (fun n c => 10 * n + (c.toNat - '0'.toNat)) 0)
  else none

/-- The integer denoted by digits after at most one sign. -/
def signed? : List Char → Option Int
  | '-' :: digits => (natural? digits).map fun n => -(n : Int)
  | '+' :: digits => (natural? digits).map (↑·)
  | digits => (natural? digits).map (↑·)

/-- The integers that a signed word of 64 bits holds. -/
def InRange (n : Int) : Prop := Int64.minValue.toInt ≤ n ∧ n ≤ Int64.maxValue.toInt

instance (n : Int) : Decidable (InRange n) := inferInstanceAs (Decidable (_ ∧ _))

/-- The value of a number token, unless it is malformed or too large. -/
def integer? (value : String) : Option Int :=
  (signed? value.toList).filter fun n => decide (InRange n)

def unquoted (value : String) : String := String.ofList (value.toList.drop 1).dropLast

end Frontend.Literal
