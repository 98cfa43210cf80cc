/-!
# Blank characters

The characters with the Unicode property White_Space, and trimming them off both ends of a text.
-/

namespace StoryGraph.Text

/-- The ranges of code points with the property White_Space. -/
def blankRanges : List (Nat × Nat) :=
  [(0x0009, 0x000D), (0x0020, 0x0020), (0x0085, 0x0085), (0x00A0, 0x00A0), (0x1680, 0x1680),
   (0x2000, 0x200A), (0x2028, 0x2029), (0x202F, 0x202F), (0x205F, 0x205F), (0x3000, 0x3000)]

/-- Whether a character has the property White_Space. -/
def isBlank (c : Char) : Bool :=
  blankRanges.any fun (low, high) ↦ low ≤ c.toNat && c.toNat ≤ high

/-- The characters between the first and the last that is not blank. -/
def trimChars (cs : List Char) : List Char :=
  ((cs.dropWhile isBlank).reverse.dropWhile isBlank).reverse

def trim (s : String) : String := .ofList (trimChars s.toList)

/-- Every blank character of ASCII is one of these. -/
theorem isBlank_of_isWhitespace {c : Char} (h : c.isWhitespace) : isBlank c := by
  simp only [Char.isWhitespace, Bool.or_eq_true, decide_eq_true_eq] at h
  rcases h with ((rfl | rfl) | rfl) | rfl <;> decide

end StoryGraph.Text
