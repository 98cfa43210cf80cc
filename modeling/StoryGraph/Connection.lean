import StoryGraph.Bubble

/-!
# Connections

A connection leaves a slot, which is an exit of a bubble or of an option, and ends at a bubble. A slot
has at most one connection in a sound scene.
-/

namespace StoryGraph

/-- The name of a connection within its scene. -/
structure ConnectionId where
  val : UInt32
deriving DecidableEq, Repr, Inhabited

namespace ConnectionId

/-- The id as a number below `2 ^ 32`. -/
def toNat (id : ConnectionId) : Nat := id.val.toNat

/-- The id of a number below `2 ^ 32`. -/
def ofNat? (n : Nat) : Option ConnectionId := if n < UInt32.size then some ⟨n.toUInt32⟩ else none

instance : ToString ConnectionId := ⟨fun id ↦ "#" ++ id.toNat.repr⟩

theorem toNat_inj {a b : ConnectionId} : a.toNat = b.toNat ↔ a = b := by
  cases a; cases b; simp [toNat, UInt32.toNat_inj]

end ConnectionId

/-- A place that a connection may leave from. -/
structure Slot where
  source : Uid
  exit : Exit
deriving DecidableEq, Repr

/-- A side of a bubble's box. -/
inductive Anchor where
  | north
  | east
  | south
  | west
deriving DecidableEq, Repr

def Anchor.name : Anchor → String
  | .north => "north"
  | .east => "east"
  | .south => "south"
  | .west => "west"

/-- A link from a slot to a bubble. -/
structure Connection where
  id : ConnectionId
  slot : Slot
  target : Uid
  /-- The side of the source at which it is drawn. -/
  sourceAnchor : Anchor
  /-- The side of the target at which it is drawn. -/
  targetAnchor : Anchor
deriving DecidableEq, Repr

namespace Connection

/-- The bubble or the option that a connection leaves. -/
def source (c : Connection) : Uid := c.slot.source

/-- A connection in one line: its id, its slot and its target. -/
def describe (c : Connection) : String :=
  toString c.id ++ " (" ++ toString c.slot.source ++ "." ++ c.slot.exit.name ++ " -> "
    ++ toString c.target ++ ")"

end Connection

end StoryGraph
