/-!
# The lines of a text

A line ends at a line feed, and a carriage return right before that line feed belongs to the line end.
What follows the last line feed is a line of its own unless it is empty.
-/

namespace StoryGraph.Text

/-- Drop the carriage return that ends a line, where the line is held backwards. -/
def dropReturn : List Char → List Char
  | '\r' :: cs => cs
  | cs => cs

/-- The lines of a text whose first characters have been read already, and are held backwards. -/
def linesFrom (held : List Char) : List Char → List (List Char)
  | [] => if held.isEmpty then [] else [held.reverse]
  | c :: cs =>
      if c = '\n' then (dropReturn held).reverse :: linesFrom [] cs else linesFrom (c :: held) cs

def lines (s : String) : List String := (linesFrom [] s.toList).map String.ofList

end StoryGraph.Text
