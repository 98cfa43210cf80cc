import StoryGraph.Document.Options
import StoryGraph.Document.Project
import StoryGraph.Files
import StoryGraph.Project.Backup
import StoryGraph.Project.Compile

/-!
# Projects and scripts in files

Loading and saving a project, and writing the scripts of its scenes. Scripts are compiled before
anything is written, and the project file is written after the scripts, with the orders that they were
compiled with.
-/

namespace StoryGraph

variable {m : Type → Type} [Monad m] [MonadFiles m]

/-- The options of a file. -/
def Options.load (path : Path) : ExceptT Error m Options := do
  ExceptT.mk (pure (Options.ofText (← path.readText)))

namespace Project

/-- The project of a file, with a report on what was dropped. -/
def load (path : Path) : ExceptT Error m (Project × LoadReport) := do
  ExceptT.mk (pure (Project.ofText (← path.readText)))

/-- Write the project file, and the directories that it lies in. -/
def save (p : Project) (path : Path) : ExceptT Error m Unit := do
  if let some dir := path.directory? then dir.makeDirs
  path.writeText p.toText

/-- Write a backup of the project file, and give its path. -/
def saveBackup (p : Project) (path : Path) (slot : Nat) : ExceptT Error m Path := do
  let backup := backupPath path slot
  p.save backup
  return backup

/-- The directory that the scripts are written to, beside the project file. -/
def scenesDir (dir : Path) : Path := dir.join "scenes"

/-- The file of a script. -/
def scriptPath (dir : Path) (scene : String) : Path := (scenesDir dir).join (scene ++ ".txt")

/-- Write scripts one after the other, and give the paths of their files. -/
def writeScripts (dir : Path) (indent : Indent) :
    List (String × Script) → ExceptT Error m (List Path)
  | [] => return []
  | (name, script) :: scripts => do
      (scriptPath dir name).writeText (script.render indent)
      return scriptPath dir name :: (← writeScripts dir indent scripts)

/-- Compile all scenes and write their scripts. The project comes back with the orders of the scenes,
also when this fails. -/
def writeAll (p : Project) (dir : Path) (options : Options) :
    m (Except Error (List Path) × Project) := do
  match p.compile options with
  | (.error e, p) => return (.error e, p)
  | (.ok scripts, p) =>
      let written ← ExceptT.run do
        (scenesDir dir).makeDirs
        writeScripts dir options.indent scripts
      return (written, p)

/-- Write the scripts beside the project file, and then the project file. -/
def saveAll (p : Project) (path : Path) (options : Options) :
    m (Except Error (List Path) × Project) := do
  match ← p.writeAll (path.directory?.getD .here) options with
  | (.error e, p) => return (.error e, p)
  | (.ok written, p) =>
      let saved ← ExceptT.run (p.save path)
      return (saved.map fun _ ↦ written, p)

end Project

end StoryGraph
