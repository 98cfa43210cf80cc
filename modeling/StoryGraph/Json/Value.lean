/-!
# JSON values as they are read

One tree serves writing and reading. A text that is being read may hold more than a document of ours
ever does: numbers that are no 64-bit integers, strings whose escapes leave half of a surrogate pair,
containers nested beyond the limit, and a point where the text stops being JSON. Those keep a place in
the tree, because a field that nobody asks for may hold some of them.
-/

namespace StoryGraph

inductive Json where
  | null
  | bool (b : Bool)
  | int (n : Int)
  /-- A number that is no 64-bit integer. Only whether a double can hold it matters. -/
  | real (inRange : Bool)
  /-- A string, or `none` where its escapes leave a surrogate without its partner. -/
  | str (text : Option String)
  | arr (items : List Json)
  | obj (members : List (Option String × Json))
  /-- A container inside `Json.maxNesting` others. -/
  | deep
  /-- The text stops being JSON here, and nothing after this point was read. -/
  | broken
deriving Repr, BEq, Inhabited

namespace Json

/-- The number of containers that may lie inside each other. -/
def maxNesting : Nat := 127

def text (s : String) : Json := .str (some s)

/-- An object from its members in order. -/
def record (members : List (String × Json)) : Json := .obj (members.map fun (k, v) ↦ (some k, v))

mutual

/-- Whether a value can be held: whole, with its numbers in range, its strings Unicode text and its
nesting within the limit. -/
def plain : Json → Bool
  | .real inRange => inRange
  | .str text => text.isSome
  | .arr items => plainItems items
  | .obj members => plainMembers members
  | .deep => false
  | .broken => false
  | _ => true

def plainItems : List Json → Bool
  | [] => true
  | v :: vs => v.plain && plainItems vs

def plainMembers : List (Option String × Json) → Bool
  | [] => true
  | (k, v) :: ms => k.isSome && v.plain && plainMembers ms

end

end Json

end StoryGraph
