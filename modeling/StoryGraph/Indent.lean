import StoryGraph.Error
import StoryGraph.Text.Blank
import StoryGraph.Text.Decimal

/-!
# Indents

One level of indentation is a tab or a number of spaces. As text it is `tab`, `tabs` or `\t`, or a
decimal number from 1 to 255 after an optional plus sign, with blanks around it.
-/

namespace StoryGraph

inductive Indent where
  | tab
  | spaces (width : UInt8)
deriving DecidableEq, Repr

namespace Indent

/-- The characters of one level. -/
def unit : Indent → String
  | .tab => "\t"
  | .spaces width => .ofList (List.replicate width.toNat ' ')

instance : Inhabited Indent := ⟨.spaces 4⟩

/-- The text of an indent. -/
def name : Indent → String
  | .tab => "tab"
  | .spaces width => width.toNat.repr

/-- The width that a number from 1 to 255 gives. -/
def width? (cs : List Char) : Option UInt8 :=
  match Text.nat? cs with
  | some n => if 0 < n ∧ n < 256 then some n.toUInt8 else none
  | none => none

/-- The indent of a text without blanks around it. -/
def ofTrimmed? (text : String) : Option Indent :=
  if text = "tab" ∨ text = "tabs" ∨ text = "\\t" then some .tab
  else (width? text.toList).map .spaces

/-- Read an indent. A refusal gives the text without the blanks around it. -/
def parse (text : String) : Except Error Indent :=
  match ofTrimmed? (Text.trim text) with
  | some indent => .ok indent
  | none => .error (.invalidIndent (Text.trim text))

end Indent

end StoryGraph
