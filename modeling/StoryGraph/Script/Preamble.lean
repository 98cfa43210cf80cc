import StoryGraph.Project.Basic

/-!
# Preambles

What stands before the code of a scene: in the startup scene the title, the author, the list of scenes
and the global variables, and in each scene its own variables. An empty line follows the declarations,
if there are any.
-/

namespace StoryGraph

/-- A line of a preamble. -/
inductive Directive where
  | title (text : String)
  | author (text : String)
  | sceneList
  /-- An entry of the list of scenes. -/
  | listed (name : String)
  /-- The declaration of a global variable. -/
  | create (name value : String)
  /-- The declaration of a variable of the scene. -/
  | temp (name value : String)
  | blank
deriving DecidableEq, Repr

namespace Directive

/-- The text of a line with its line feed, where `unit` is the margin of one level. -/
def render (unit : String) : Directive → String
  | .title text => "*title " ++ text ++ "\n"
  | .author text => "*author " ++ text ++ "\n"
  | .sceneList => "*scene_list\n"
  | .listed name => unit ++ name ++ "\n"
  | .create name value => "*create " ++ name ++ " " ++ value ++ "\n"
  | .temp name value => "*temp " ++ name ++ " " ++ value ++ "\n"
  | .blank => "\n"

def renderAll (unit : String) (ds : List Directive) : String := String.join (ds.map (render unit))

end Directive

namespace Project

/-- The title page of the startup scene. -/
def titlePage (p : Project) : List Directive :=
  [.title p.title, .author p.author, .blank, .sceneList] ++ p.sceneNames.map .listed ++ [.blank]

/-- The declarations of the global variables. -/
def globalDeclarations (p : Project) : List Directive :=
  (p.vars.filter (·.isGlobal)).map fun v ↦ .create v.name v.value

/-- The declarations of the variables of a scene. -/
def localDeclarations (p : Project) (scene : String) : List Directive :=
  (p.vars.filter (·.owner = some scene)).map fun v ↦ .temp v.name v.value

/-- The declarations at the front of a scene. -/
def declarations (p : Project) (scene : String) : List Directive :=
  (if scene = startupName then p.globalDeclarations else []) ++ p.localDeclarations scene

/-- The preamble of the scene of a name. -/
def preamble (p : Project) (scene : String) : List Directive :=
  (if scene = startupName then p.titlePage else []) ++ p.declarations scene ++
    (if p.declarations scene = [] then [] else [.blank])

end Project

end StoryGraph
