import StoryGraph.Uid
import StoryGraph.Text.Lines

/-!
# The lines of a script

The code of a scene is a list of items: the lines that will be written, each a statement at a level of
nesting, and marks that say where the code of a bubble begins. Marks take no room in the text.
-/

namespace StoryGraph

/-- What a line says. -/
inductive Statement where
  /-- A line that the author wrote. -/
  | text (words : String)
  | label (name : String)
  | goto (name : String)
  /-- The scene ends. -/
  | finish
  /-- The options that follow are offered. -/
  | choice
  | option (answer : String)
  /-- The lines below are for when the expression holds. -/
  | branch (expression : String)
  /-- The lines below are for when it does not. -/
  | otherwise
deriving DecidableEq, Repr

def Statement.render : Statement → String
  | .text words => words
  | .label name => "*label " ++ name
  | .goto name => "*goto " ++ name
  | .finish => "*finish"
  | .choice => "*choice"
  | .option answer => "#" ++ answer
  | .branch expression => "*if(" ++ expression ++ ")"
  | .otherwise => "*else"

inductive Item where
  /-- The code of a bubble begins here. -/
  | enter (uid : Uid)
  | blank
  | line (level : Nat) (statement : Statement)
deriving DecidableEq, Repr

namespace Item

/-- The margin of a line at a level, where `unit` is the margin of one level. -/
def margin (unit : String) : Nat → String
  | 0 => ""
  | level + 1 => unit ++ margin unit level

/-- The text of an item, with the line feed that ends it. -/
def render (unit : String) : Item → String
  | .enter _ => ""
  | .blank => "\n"
  | .line level statement => margin unit level ++ statement.render ++ "\n"

/-- The lines of a text at a level. Empty lines have no margin. -/
def ofText (level : Nat) (text : String) : List Item :=
  (Text.lines text).map fun line ↦ if line = "" then .blank else .line level (.text line)

/-- The text of a list of items. -/
def renderAll (unit : String) (items : List Item) : String :=
  String.join (items.map (render unit))

end Item

end StoryGraph
