/-!
# Numbers in decimal digits

Only the ten digits of ASCII count, and zeros in front change nothing.
-/

namespace StoryGraph.Text

/-- The value of a list of decimal digits. -/
def digitsValue (cs : List Char) : Nat := cs.foldl (fun n c ↦ 10 * n + (c.toNat - 48)) 0

/-- Drop one plus sign. -/
def withoutPlus : List Char → List Char
  | '+' :: cs => cs
  | cs => cs

/-- The number that one or more decimal digits write after an optional plus sign. -/
def nat? (cs : List Char) : Option Nat :=
  let digits := withoutPlus cs
  if !digits.isEmpty ∧ digits.all Char.isDigit then some (digitsValue digits) else none

end StoryGraph.Text
