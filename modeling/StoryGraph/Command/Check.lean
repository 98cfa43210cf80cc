import StoryGraph.Project.Compile
import StoryGraph.Scene.Reachable

/-!
# Checking a project

A report on each scene: how large it is, the labels that its script has, and the bubbles that the start
does not reach. To report on a scene it is compiled, so that checking fails where compiling does.
-/

namespace StoryGraph

structure SceneReport where
  name : String
  /-- The number of bubbles. -/
  bubbles : Nat
  /-- The number of connections. -/
  connections : Nat
  /-- The names of the labels, in the order of the script. -/
  labels : List String
  /-- The bubbles that the start does not reach, in the order in which they came. -/
  unreachable : List Bubble
deriving DecidableEq, Repr

namespace SceneReport

/-- The report on a scene that has been emitted under a policy. -/
def ofPolicy (s : Scene) (p : LabelPolicy) : SceneReport :=
  let reachable := s.reachable
  { name := s.name
    bubbles := s.bubbles.length
    connections := s.connections.length
    labels := p.labelled.map p.labelName
    unreachable := s.bubbles.filter (·.uid ∉ reachable) }

/-- A bubble by its uid and its type. -/
def describeBubble (b : Bubble) : String := toString b.uid ++ " (" ++ b.type.name ++ ")"

/-- A list behind its title, unless it is empty. -/
def listing (title : String) (entries : List String) : List String :=
  if entries = [] then [] else ["  " ++ title ++ ": " ++ ", ".intercalate entries]

/-- The lines of a report. -/
def lines (r : SceneReport) : List String :=
  ("scene '" ++ r.name ++ "': " ++ r.bubbles.repr ++ " bubble(s), " ++ r.connections.repr
      ++ " connection(s)") ::
    (listing "labels" r.labels ++ listing "unreachable" (r.unreachable.map describeBubble))

end SceneReport

namespace Project

/-- The report on a scene, and the project with the orders of that scene. -/
def checkScene (p : Project) (name : String) (options : Options) :
    Except Error SceneReport × Project :=
  match p.orderScene name with
  | .error e => (.error e, p)
  | .ok (s, p) =>
      match s.emit s.sequence options.maxDepth.toNat with
      | .error e => (.error e, p)
      | .ok (_, policy) => (.ok (.ofPolicy s policy), p)

/-- The reports on scenes, one after the other, up to the first scene that cannot be compiled. -/
def checkScenes (p : Project) (options : Options) :
    List String → List SceneReport × Except Error Unit
  | [] => ([], .ok ())
  | name :: names =>
      match p.checkScene name options with
      | (.error e, _) => ([], .error e)
      | (.ok report, p) =>
          let (reports, result) := p.checkScenes options names
          (report :: reports, result)

/-- The reports on all scenes in order. -/
def check (p : Project) (options : Options) : List SceneReport × Except Error Unit :=
  p.checkScenes options p.sceneNames

end Project

end StoryGraph
