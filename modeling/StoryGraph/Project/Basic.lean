import StoryGraph.Scene.Edit

/-!
# Projects

A project is a story: its scenes in order, its variables, and the pool that the uids of all its scenes
come from. One scene, named `startup`, opens the story.
-/

namespace StoryGraph

/-- A variable of the script. -/
structure Variable where
  name : String
  value : String
  /-- The scene that it belongs to; without one it is global. -/
  owner : Option String
deriving DecidableEq, Repr

def Variable.isGlobal (v : Variable) : Bool := v.owner.isNone

structure Project where
  title : String
  author : String
  scenes : List Scene
  vars : List Variable
  /-- The uids in use in all the scenes. -/
  pool : UidPool
deriving DecidableEq, Repr

namespace Project

/-- The name of the scene that opens the story. -/
def startupName : String := "startup"

/-- A project with nothing but an empty startup scene. -/
def create (title author : String) : Project :=
  let start : Uid := ⟨0⟩
  ⟨title, author, [.create startupName start], [], UidPool.empty.insert start⟩

/-- The names of the scenes in order. -/
def sceneNames (p : Project) : List String := p.scenes.map (·.name)

def scene? (p : Project) (name : String) : Option Scene := p.scenes.find? (·.name = name)

def scene (p : Project) (name : String) : Except Error Scene :=
  match p.scene? name with
  | some s => .ok s
  | none => .error (.sceneNotFound name)

/-- The scene that opens the story. -/
def startup (p : Project) : Except Error Scene :=
  match p.scene? startupName with
  | some s => .ok s
  | none => .error .missingStartup

/-- Change the scene of a name. -/
def updateScene (p : Project) (name : String) (f : Scene → Scene) : Project :=
  { p with scenes := updateFirst (·.name = name) f p.scenes }

end Project

end StoryGraph
