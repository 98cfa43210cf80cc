import StoryGraph.Scene.Basic

/-!
# Repairing a scene

A connection stays if its slot exists, it ends where a link may end, no connection before it that could
be resolved had its id, and no connection that stays had its slot.
-/

namespace StoryGraph.Scene

/-- Whether a connection leaves a slot of the scene and ends where a link may end. -/
def resolves (s : Scene) (c : Connection) : Bool := s.hasSlot c.slot && s.isTarget c.target

/-- The connections that stay and those that are dropped, where some ids and slots are taken. -/
def sift (s : Scene) (ids : List ConnectionId) (slots : List Slot) :
    List Connection → List Connection × List Connection
  | [] => ([], [])
  | c :: cs =>
      if !s.resolves c ∨ c.id ∈ ids then
        let (kept, dropped) := s.sift ids slots cs
        (kept, c :: dropped)
      else if c.slot ∈ slots then
        let (kept, dropped) := s.sift (c.id :: ids) slots cs
        (kept, c :: dropped)
      else
        let (kept, dropped) := s.sift (c.id :: ids) (c.slot :: slots) cs
        (c :: kept, dropped)

/-- The scene with the connections that stay, and the connections that are dropped. -/
def repair (s : Scene) : Scene × List Connection :=
  let (kept, dropped) := s.sift [] [] s.connections
  ({ s with connections := kept }, dropped)

end StoryGraph.Scene
