import StoryGraph.Scene.Basic

/-!
# The emission sequence

Bubbles come by ascending order, a start before other bubbles of its order, then by ascending uid.
-/

namespace StoryGraph.Scene

/-- Whether a bubble may come before another. -/
def precedes (a b : Bubble) : Bool :=
  a.order < b.order || a.order = b.order &&
    (a.isStart && !b.isStart || a.isStart = b.isStart && a.uid ≤ b.uid)

/-- The uids of the bubbles in the order in which they are emitted. -/
def sequence (s : Scene) : List Uid := (s.bubbles.mergeSort precedes).map (·.uid)

end StoryGraph.Scene
