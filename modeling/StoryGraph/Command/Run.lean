import StoryGraph.Command.Arguments
import StoryGraph.Command.Check
import StoryGraph.Project.Store

/-!
# Running a command

A command uses files and comes to an outcome: what it prints, and the code that it ends with. Options
are read before the project, and an option on the command line wins over the one in the file.
-/

namespace StoryGraph.Command

/-- What a command prints, line by line, and the code that it ends with. -/
structure Outcome where
  code : UInt32
  output : List String
  /-- The lines on the error stream. -/
  notes : List String
deriving DecidableEq, Repr

/-- How the commands are used. -/
def usage : List String :=
  ["Compile story projects into ChoiceScript",
   "",
   "Usage:",
   "  export <PROJECT> [-o|--out <DIR>] [-c|--config <FILE>] [--indent <N|tab>] [--max-depth <N>]",
   "  check <PROJECT> [-c|--config <FILE>]",
   "",
   "Options:",
   "  -v, --verbose  Increase verbosity",
   "  -h, --help     Print help"]

/-- The code that an error ends a command with. -/
def exitCode : Error → UInt32
  | .overflow => 101
  | _ => 1

/-- What has been printed so far. -/
structure Printed where
  output : List String
  notes : List String

/-- A command that prints and may fail. -/
abbrev Running (m : Type → Type) := ExceptT Error (StateT Printed m)

variable {m : Type → Type} [Monad m] [MonadFiles m]

def say (lines : List String) : Running m Unit :=
  modify fun printed ↦ { printed with output := printed.output ++ lines }

def warn (lines : List String) : Running m Unit :=
  modify fun printed ↦ { printed with notes := printed.notes ++ lines.map ("warning: " ++ ·) }

/-- Use files in a command. -/
def withFiles {α : Type} (action : ExceptT Error m α) : Running m α := ExceptT.mk (StateT.lift action.run)

/-- The options of a file, if there is one. -/
def loadOptions (config : Option Path) : Running m Options :=
  match config with
  | some path => withFiles (Options.load path)
  | none => return default

/-- What there is to say about a connection that was dropped. -/
def droppedLine (scene : String) (c : Connection) : String :=
  "scene '" ++ scene ++ "': dropped unresolved connection " ++ c.describe

/-- The project of a file. What was dropped is warned about. -/
def loadProject (path : Path) : Running m Project := do
  let (project, report) ← withFiles (Project.load path)
  warn (report.dropped.map fun (scene, c) ↦ droppedLine scene c)
  return project

/-- The options with those of the command line in their place. -/
def chosenOptions (options : Options) (g : Given) : Except Error Options := do
  let indent ← match g.indent with
    | some text => Indent.parse text
    | none => pure options.indent
  return ⟨indent, g.maxDepth.getD options.maxDepth⟩

/-- Write the script of every scene, and list the files. -/
def runCompile (path : Path) (g : Given) : Running m Unit := do
  let options ← loadOptions g.config
  let options ← ExceptT.mk (pure (chosenOptions options g))
  let project ← loadProject path
  let dir := g.out.getD (path.directory?.getD .here)
  let written ← withFiles (ExceptT.mk (return (← project.writeAll dir options).1))
  say (written.map Path.text)

/-- Report on every scene. -/
def runCheck (path : Path) (config : Option Path) : Running m Unit := do
  let options ← loadOptions config
  let project ← loadProject path
  if project.startup.toOption.isNone then
    warn ["project has no 'startup' scene; no preamble will be emitted"]
  let (reports, result) := project.check options
  say (reports.flatMap SceneReport.lines)
  ExceptT.mk (pure result)

/-- The outcome of a command that has run. -/
def Outcome.ofRun (result : Except Error Unit) (printed : Printed) : Outcome :=
  match result with
  | .ok () => ⟨0, printed.output, printed.notes⟩
  | .error e => ⟨exitCode e, printed.output, printed.notes ++ ["error: " ++ e.message]⟩

/-- Run the command that the words make. -/
def run (words : List String) : m Outcome := do
  match parse words with
  | .error .help => return ⟨0, usage, []⟩
  | .error .usage => return ⟨2, [], usage⟩
  | .ok (.compile path g) =>
      let (result, printed) ← (ExceptT.run (runCompile path g)).run ⟨[], []⟩
      return .ofRun result printed
  | .ok (.check path config) =>
      let (result, printed) ← (ExceptT.run (runCheck path config)).run ⟨[], []⟩
      return .ofRun result printed

end StoryGraph.Command
