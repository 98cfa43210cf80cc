import StoryGraph.Error
import StoryGraph.Path

/-!
# Using files

`MonadFiles` is what the library asks of a place where files are kept: four operations, each of which
can fail. On top of them stand reading a text, and making a directory with all the directories around
it.
-/

namespace StoryGraph

class MonadFiles (m : Type → Type) where
  readFile : Path → m (Except FileError ByteArray)
  /-- Write a file, in place of one that is there. -/
  writeFile : Path → String → m (Except FileError Unit)
  /-- Make a directory in one that is there. -/
  makeDir : Path → m (Except FileError Unit)
  isDir : Path → m Bool

namespace MonadFiles

variable {m : Type → Type} [Monad m] [MonadFiles m]

/-- Make a directory, unless it is there already. -/
def ensureDir (p : Path) : m (Except FileError Unit) := do
  match ← makeDir p with
  | .ok () => return .ok ()
  | .error e => return if ← isDir p then .ok () else .error e

/-- Make a directory and the directories around it, as far as they are missing. -/
def ensureDirs (p : Path) : m (Except FileError Unit) := do
  if p = .empty then return .ok ()
  match ← ensureDir p with
  | .error .notFound =>
      match _h : p.parent? with
      | none => return .error (.other "failed to create whole tree")
      | some q =>
          match ← ensureDirs q with
          | .ok () => ensureDir p
          | .error e => return .error e
  | result => return result
termination_by p.segments.length
decreasing_by exact Path.length_segments_lt_of_parent? _h

end MonadFiles

/-! ## With errors of the library -/

namespace Path

variable {m : Type → Type} [Monad m] [MonadFiles m]

/-- Name the path in the error of an operation on it. -/
def naming {α : Type} (p : Path) (action : m (Except FileError α)) : ExceptT Error m α :=
  ExceptT.mk (return (← action).mapError (.file p.text))

/-- Read a file as text. -/
def readText (p : Path) : ExceptT Error m String := do
  let content ← p.naming (MonadFiles.readFile p)
  match String.fromUTF8? content with
  | some text => return text
  | none => throw (.file p.text .notText)

def writeText (p : Path) (text : String) : ExceptT Error m Unit :=
  p.naming (MonadFiles.writeFile p text)

def makeDirs (p : Path) : ExceptT Error m Unit := p.naming (MonadFiles.ensureDirs p)

end Path

end StoryGraph
