import StoryGraph.Command.Run

/-! # The program -/

namespace StoryGraph

/-- The cause that an error of the system tells. -/
def FileError.ofSystem : IO.Error → FileError
  | .noFileOrDirectory .. => .notFound
  | .alreadyExists .. => .alreadyExists
  | .inappropriateType _ 20 _ => .notADirectory
  | .inappropriateType _ 21 _ => .isADirectory
  | .invalidArgument _ 36 _ => .nameTooLong
  | e => .other (toString e)

/-- Perform an operation on the path of a file, and give the cause if it fails. -/
def perform {α : Type} (p : Path) (action : String → IO α) : IO (Except FileError α) := do
  if p.text.contains '\x00' then return .error .nulInPath
  try
    return .ok (← action p.text)
  catch e =>
    return .error (.ofSystem e)

/-- A new directory whose path ends in a dot meets one that exists exactly where there is one. -/
def isDirectory (p : Path) : IO Bool := do
  match ← perform p fun text ↦ IO.FS.createDir (text ++ "/.") with
  | .error .alreadyExists => return true
  | _ => return false

instance : MonadFiles IO where
  readFile p := perform p fun text ↦ IO.FS.readBinFile text
  writeFile p content := perform p fun text ↦ IO.FS.writeFile text content
  makeDir p := perform p fun text ↦ IO.FS.createDir text
  isDir := isDirectory

end StoryGraph

def main (words : List String) : IO UInt32 := do
  let outcome ← StoryGraph.Command.run (m := IO) words
  outcome.output.forM fun line ↦ IO.println line
  outcome.notes.forM fun line ↦ IO.eprintln line
  return outcome.code
