import StoryGraph.Path

/-!
# Backups

A backup of a project file has a number, its slot. It lies in the directory `backups` beside the file,
under the name of the file with the slot before the extension.
-/

namespace StoryGraph

/-- The file of a backup. A path without a file name stands for `project`, and a name without an
extension gets `json`. -/
def backupPath (project : Path) (slot : Nat) : Path :=
  let stem := project.stem?.getD "project"
  let extension := project.extension?.getD "json"
  ((project.parent?.getD .empty).join "backups").join
    (stem ++ ".backup" ++ slot.repr ++ "." ++ extension)

/-- The slots from 1 to `max` in turn. -/
structure BackupRotation where
  max : Nat
  /-- The slot that was written last, or 0. -/
  last : Nat
deriving DecidableEq, Repr

namespace BackupRotation

def create (max : Nat) : BackupRotation := ⟨max, 0⟩

/-- The slot to write next. Without slots there are no backups. -/
def next? (r : BackupRotation) : Option (Nat × BackupRotation) :=
  if r.max = 0 then none
  else
    let slot := r.last % r.max + 1
    some (slot, { r with last := slot })

/-- The next slots, one after the other. -/
def nextSlots (r : BackupRotation) : Nat → List (Option Nat)
  | 0 => []
  | n + 1 =>
      match r.next? with
      | none => none :: r.nextSlots n
      | some (slot, r) => some slot :: r.nextSlots n

end BackupRotation

end StoryGraph
