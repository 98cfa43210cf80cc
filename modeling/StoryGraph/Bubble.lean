import StoryGraph.Uid

/-!
# Bubbles

The nodes of a story. What a bubble holds depends on its kind, and so do the exits that links leave it
from; the links of a choice leave its options instead.
-/

namespace StoryGraph

/-- The kind of a bubble, without what it holds. -/
inductive BubbleType where
  | start
  | story
  | choice
  | action
  | condition
deriving DecidableEq, Repr

def BubbleType.name : BubbleType → String
  | .start => "start"
  | .story => "story"
  | .choice => "choice"
  | .action => "action"
  | .condition => "condition"

/-- Where a link leaves a bubble or an option. -/
inductive Exit where
  /-- The one link of a start, a story, an action or an option. -/
  | next
  /-- The branch of a condition that holds. -/
  | whenTrue
  /-- The branch of a condition that does not hold. -/
  | whenFalse
deriving DecidableEq, Repr

def Exit.name : Exit → String
  | .next => "next"
  | .whenTrue => "true"
  | .whenFalse => "false"

/-- One answer of a choice. -/
structure ChoiceOption where
  uid : Uid
  text : String
deriving DecidableEq, Repr

inductive BubbleKind where
  | start
  | story (text : String)
  | action (script : String)
  | condition (expression : String)
  | choice (options : List ChoiceOption)
deriving DecidableEq, Repr

namespace BubbleKind

def type : BubbleKind → BubbleType
  | .start => .start
  | .story _ => .story
  | .action _ => .action
  | .condition _ => .condition
  | .choice _ => .choice

/-- The exits of a bubble of this kind, in the order in which its links are followed. -/
def exits : BubbleKind → List Exit
  | .start | .story _ | .action _ => [.next]
  | .condition _ => [.whenTrue, .whenFalse]
  | .choice _ => []

def options : BubbleKind → List ChoiceOption
  | .choice options => options
  | _ => []

end BubbleKind

/-- A node of a story. -/
structure Bubble where
  uid : Uid
  /-- The name that its author gave it, or nothing. -/
  label : String
  /-- Where it stands in the script. -/
  order : Int64
  /-- Whether ordering the scene leaves `order` alone. -/
  locked : Bool
  kind : BubbleKind
deriving DecidableEq, Repr

namespace Bubble

/-- A bubble without a label, at the front of the script. -/
def create (uid : Uid) (kind : BubbleKind) : Bubble := ⟨uid, "", 0, false, kind⟩

def type (b : Bubble) : BubbleType := b.kind.type

def isStart (b : Bubble) : Bool := b.type = .start

def isChoice (b : Bubble) : Bool := b.type = .choice

def exits (b : Bubble) : List Exit := b.kind.exits

def options (b : Bubble) : List ChoiceOption := b.kind.options

def optionUids (b : Bubble) : List Uid := b.options.map (·.uid)

/-- The uids that a bubble takes up: its own, then those of its options. -/
def uids (b : Bubble) : List Uid := b.uid :: b.optionUids

end Bubble

end StoryGraph
