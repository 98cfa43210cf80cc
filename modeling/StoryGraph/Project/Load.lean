import StoryGraph.Project.Basic
import StoryGraph.Scene.Repair

/-!
# Loading a project

A project file is checked before it becomes a project: its format version, and then scene by scene that
the name is new, that there is exactly one start, and that the uids are free. Connections cannot make a
file unfit. Those that cannot be resolved are dropped, and reported.
-/

namespace StoryGraph

/-- What a project file says, before any check. -/
structure ProjectFile where
  version : UInt32
  title : String
  author : String
  scenes : List Scene
  vars : List Variable
deriving DecidableEq, Repr

/-- The connections that were dropped, each with the name of its scene. -/
structure LoadReport where
  dropped : List (String × Connection)
deriving DecidableEq, Repr

def LoadReport.isClean (r : LoadReport) : Bool := r.dropped.isEmpty

/-- A scene has exactly one start, or this is wrong. -/
def Scene.checkStart (s : Scene) : Except Error Unit :=
  match s.bubbles.countP (·.isStart) with
  | 0 => .error (.missingStart s.name)
  | 1 => .ok ()
  | _ => .error (.duplicateStart s.name)

namespace ProjectFile

/-- The format version that is written and read. -/
def formatVersion : UInt32 := 1

/-- Check scenes in order, where some names and uids are in use. The answer is the uids in use. -/
def checkScenes (names : List String) (pool : UidPool) : List Scene → Except Error UidPool
  | [] => .ok pool
  | s :: ss => do
      if s.name ∈ names then throw (.duplicateScene s.name)
      s.checkStart
      let pool ← pool.claimAll s.uids
      checkScenes (s.name :: names) pool ss

/-- The connections that repairing scenes drops. -/
def droppedIn (scenes : List Scene) : List (String × Connection) :=
  scenes.flatMap fun s ↦ s.repair.2.map fun c ↦ (s.name, c)

/-- The project of a file, with its scenes repaired. -/
def load (f : ProjectFile) : Except Error (Project × LoadReport) := do
  if f.version ≠ formatVersion then throw (.unsupportedVersion f.version)
  let pool ← checkScenes [] .empty f.scenes
  let scenes := f.scenes.map (·.repair.1)
  return (⟨f.title, f.author, scenes, f.vars, pool⟩, ⟨droppedIn f.scenes⟩)

end ProjectFile

/-- What the file of a project says. -/
def Project.toFile (p : Project) : ProjectFile :=
  ⟨ProjectFile.formatVersion, p.title, p.author, p.scenes, p.vars⟩

end StoryGraph
