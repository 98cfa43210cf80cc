import StoryGraph.Project.Edit
import StoryGraph.Scene.InPlace

/-!
# Editing a project in place

Scenes are added, renamed, moved and removed step by step in a project that changes under the edits.
-/

namespace StoryGraph.InPlace

/-- Add a scene with nothing but its start, and give the uid of the start. -/
def addScene (name : String) : InPlace Project Uid := do
  check ((← get).requireNewName name)
  let (start, pool) ← check (← get).pool.allocate
  modify fun p ↦ { p with pool }
  modify fun p ↦ { p with scenes := p.scenes ++ [.create name start] }
  return start

/-- Give a scene another name, and then its variables. -/
def renameScene (old new : String) : InPlace Project Unit := do
  if old = new then return
  if old = Project.startupName then throw .cannotRenameStartup
  check ((← get).requireNewName new)
  let _ ← check ((← get).scene old)
  modify fun p ↦ p.updateScene old fun s ↦ { s with name := new }
  modify fun p ↦ { p with vars := p.vars.map (Project.renameOwner old new) }

/-- Move a scene one place towards the front. -/
def moveSceneUp (name : String) : InPlace Project Unit := do
  match ← check ((← get).sceneIndex name) with
  | 0 => return
  | i + 1 => modify fun p ↦ { p with scenes := Project.swapAt i p.scenes }

/-- Move a scene one place towards the end. -/
def moveSceneDown (name : String) : InPlace Project Unit := do
  let i ← check ((← get).sceneIndex name)
  modify fun p ↦ { p with scenes := Project.swapAt i p.scenes }

/-- Remove a scene, then its uids and then its variables. -/
def removeScene (name : String) : InPlace Project Scene := do
  if name = Project.startupName then throw .cannotRemoveStartup
  let s ← check ((← get).scene name)
  modify fun p ↦ { p with scenes := p.scenes.eraseP (·.name = name) }
  modify fun p ↦ { p with pool := p.pool.eraseAll s.uids }
  modify fun p ↦ { p with vars := p.vars.filter (·.owner ≠ some name) }
  return s

/-- Edit a scene with the pool of the project. -/
def inScene {α : Type} (name : String) (edit : InPlace Draft α) : InPlace Project α :=
  .ofFun fun p ↦ p.editScene name fun d ↦ edit.runFrom d

end StoryGraph.InPlace
