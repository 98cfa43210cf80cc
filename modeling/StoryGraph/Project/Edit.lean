import StoryGraph.Project.Basic

/-!
# Editing a project

Scenes are added, renamed, moved and removed. An edit that fails gives no new project. Edits within a
scene work on a draft of it, and what the draft comes to goes back into the project.
-/

namespace StoryGraph.Project

def requireNewName (p : Project) (name : String) : Except Error Unit :=
  if (p.scene? name).isSome then .error (.duplicateScene name) else .ok ()

/-- The position of a scene. -/
def sceneIndex (p : Project) (name : String) : Except Error Nat :=
  match p.scenes.findIdx? (·.name = name) with
  | some i => .ok i
  | none => .error (.sceneNotFound name)

/-- Add a scene with nothing but its start, and give the uid of the start. -/
def addScene (p : Project) (name : String) : Except Error (Uid × Project) := do
  p.requireNewName name
  let (start, pool) ← p.pool.allocate
  return (start, { p with scenes := p.scenes ++ [.create name start], pool })

/-- A variable after the scene of a name has got another. -/
def renameOwner (old new : String) (v : Variable) : Variable :=
  if v.owner = some old then { v with owner := some new } else v

/-- Give a scene another name. Its variables stay with it, and the startup scene keeps its name. -/
def renameScene (p : Project) (old new : String) : Except Error Project := do
  if old = new then return p
  if old = startupName then throw .cannotRenameStartup
  p.requireNewName new
  let _ ← p.scene old
  let renamed := p.updateScene old fun s ↦ { s with name := new }
  return { renamed with vars := p.vars.map (renameOwner old new) }

/-- Exchange an element of a list with the one after it. -/
def swapAt {α : Type} : Nat → List α → List α
  | 0, x :: y :: rest => y :: x :: rest
  | i + 1, x :: rest => x :: swapAt i rest
  | _, xs => xs

/-- Move a scene one place towards the front. -/
def moveSceneUp (p : Project) (name : String) : Except Error Project := do
  match ← p.sceneIndex name with
  | 0 => return p
  | i + 1 => return { p with scenes := swapAt i p.scenes }

/-- Move a scene one place towards the end. -/
def moveSceneDown (p : Project) (name : String) : Except Error Project := do
  return { p with scenes := swapAt (← p.sceneIndex name) p.scenes }

/-- Remove a scene with its uids and its variables. The startup scene stays. -/
def removeScene (p : Project) (name : String) : Except Error (Scene × Project) := do
  if name = startupName then throw .cannotRemoveStartup
  let s ← p.scene name
  return (s, { p with
    scenes := p.scenes.eraseP (·.name = name)
    vars := p.vars.filter (·.owner ≠ some name)
    pool := p.pool.eraseAll s.uids })

/-- Add a variable after the others. -/
def addVariable (p : Project) (v : Variable) : Project :=
  { p with vars := p.vars ++ [v] }

/-- Edit a scene with the pool of the project. -/
def editScene {α : Type} (p : Project) (name : String) (edit : Draft → Except Error α × Draft) :
    Except Error α × Project :=
  match p.scene? name with
  | none => (.error (.sceneNotFound name), p)
  | some s =>
      let (result, d) := edit ⟨s, p.pool⟩
      (result, { p.updateScene name fun _ ↦ d.scene with pool := d.pool })

end StoryGraph.Project
