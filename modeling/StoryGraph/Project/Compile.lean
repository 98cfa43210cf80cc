import StoryGraph.Options
import StoryGraph.Scene.Order
import StoryGraph.Scene.Sequence
import StoryGraph.Script.Emit
import StoryGraph.Script.Preamble

/-!
# Compiling a project

To compile a scene is to order it, to emit it along its sequence, and to put its preamble in front. The
orders stay in the project, and they stay also when emission fails.
-/

namespace StoryGraph

/-- The script of a scene. -/
structure Script where
  preamble : List Directive
  code : List Item
deriving DecidableEq, Repr

/-- The text of a script. -/
def Script.render (indent : Indent) (s : Script) : String :=
  Directive.renderAll indent.unit s.preamble ++ Item.renderAll indent.unit s.code

namespace Project

/-- Order a scene of a project. -/
def orderScene (p : Project) (name : String) : Except Error (Scene × Project) := do
  let (_, s) ← (← p.scene name).computeOrder
  return (s, p.updateScene name fun _ ↦ s)

/-- The script of a scene, and the project with the orders of that scene. -/
def compileScene (p : Project) (name : String) (options : Options) :
    Except Error Script × Project :=
  match p.orderScene name with
  | .error e => (.error e, p)
  | .ok (s, p) =>
      match s.emit s.sequence options.maxDepth.toNat with
      | .error e => (.error e, p)
      | .ok (code, _) => (.ok ⟨p.preamble name, code⟩, p)

/-- The scripts of scenes, one after the other, each with the name of its scene. -/
def compileScenes (p : Project) (options : Options) :
    List String → Except Error (List (String × Script)) × Project
  | [] => (.ok [], p)
  | name :: names =>
      match p.compileScene name options with
      | (.error e, p) => (.error e, p)
      | (.ok script, p) =>
          match p.compileScenes options names with
          | (.error e, p) => (.error e, p)
          | (.ok scripts, p) => (.ok ((name, script) :: scripts), p)

/-- The scripts of all scenes in order. -/
def compile (p : Project) (options : Options) : Except Error (List (String × Script)) × Project :=
  p.compileScenes options p.sceneNames

end Project

end StoryGraph
