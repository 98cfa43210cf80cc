import StoryGraph.Options
import StoryGraph.Path

/-!
# The command line

There are two commands. `export` takes a project file and the options `--out`, `--config`, `--indent`
and `--max-depth`; `check` takes a project file and `--config`. An option comes once, its value behind
it or joined to it, and `--out` and `--config` have the short forms `-o` and `-c`. Short options may be
run together. `-v` may stand anywhere and asks for nothing that a report shows. Behind `--` no word is
an option.
-/

namespace StoryGraph.Command

/-- An option that has a value. -/
inductive Flag where
  | out
  | config
  | indent
  | maxDepth
deriving DecidableEq, Repr

namespace Flag

def ofLong? : String → Option Flag
  | "out" => some .out
  | "config" => some .config
  | "indent" => some .indent
  | "max-depth" => some .maxDepth
  | _ => none

def ofShort? : Char → Option Flag
  | 'o' => some .out
  | 'c' => some .config
  | _ => none

end Flag

/-- Why no command is run. -/
inductive Refusal where
  /-- The words ask for help. -/
  | help
  /-- The words make no command. -/
  | usage
deriving DecidableEq, Repr

/-- What the words of a command give. -/
structure Given where
  project : Option Path
  out : Option Path
  config : Option Path
  indent : Option String
  maxDepth : Option UInt64
deriving DecidableEq, Repr

/-- A command with what it is given. -/
inductive Request where
  /-- Write the script of every scene. -/
  | compile (project : Path) (given : Given)
  /-- Report on every scene. -/
  | check (project : Path) (config : Option Path)
deriving DecidableEq, Repr

/-! ## Values -/

/-- A path that is not empty. -/
def path? (word : String) : Option Path := if word = "" then none else some (.ofText word)

/-- A number of 64 bits. -/
def depth? (word : String) : Option UInt64 :=
  match Text.nat? word.toList with
  | some n => if n < UInt64.size then some n.toUInt64 else none
  | none => none

namespace Given

def nothing : Given := ⟨none, none, none, none, none⟩

/-- Take the value of an option that has not come before. -/
def give (g : Given) (flag : Flag) (value : String) : Except Refusal Given :=
  let taken : Option Given :=
    match flag with
    | .out => if g.out.isSome then none else (path? value).map ({ g with out := some · })
    | .config => if g.config.isSome then none else (path? value).map ({ g with config := some · })
    | .indent => if g.indent.isSome then none else some { g with indent := some value }
    | .maxDepth =>
        if g.maxDepth.isSome then none else (depth? value).map ({ g with maxDepth := some · })
  match taken with
  | some g => .ok g
  | none => .error .usage

/-- Take a word that is no option. There is only one, the project. -/
def giveProject (g : Given) (word : String) : Except Refusal Given :=
  match g.project, path? word with
  | none, some path => .ok { g with project := some path }
  | _, _ => .error .usage

end Given

/-! ## Words -/

/-- What a word looks like. -/
inductive Shape where
  | plain
  /-- The word after which no word is an option. -/
  | stop
  /-- A long option, perhaps with a value joined to it. -/
  | long (name : String) (value : Option String)
  | short (letters : List Char)
deriving DecidableEq, Repr

def Shape.ofWord (word : String) : Shape :=
  match word.toList with
  | ['-', '-'] => .stop
  | '-' :: '-' :: cs =>
      let name := String.ofList (cs.takeWhile (· ≠ '='))
      match cs.dropWhile (· ≠ '=') with
      | [] => .long name none
      | _ :: value => .long name (some (.ofList value))
  | '-' :: c :: cs => .short (c :: cs)
  | _ => .plain

/-- Read options that are run together, and say which of them has its value in the next word. -/
def readLetters (allowed : List Flag) (g : Given) : List Char → Except Refusal (Given × Option Flag)
  | [] => .ok (g, none)
  | 'v' :: cs => if cs.head? = some '=' then .error .usage else readLetters allowed g cs
  | 'h' :: _ => .error .help
  | c :: cs =>
      match (Flag.ofShort? c).filter (· ∈ allowed), cs with
      | none, _ => .error .usage
      | some flag, [] => .ok (g, some flag)
      | some flag, '=' :: value => (g.give flag (.ofList value)).map (·, none)
      | some flag, value => (g.give flag (.ofList value)).map (·, none)

/-- Read a long option, and say whether it has its value in the next word. -/
def readLong (allowed : List Flag) (g : Given) (name : String) (value : Option String) :
    Except Refusal (Given × Option Flag) :=
  if name = "verbose" then if value.isSome then .error .usage else .ok (g, none)
  else if name = "help" then if value.isSome then .error .usage else .error .help
  else
    match (Flag.ofLong? name).filter (· ∈ allowed), value with
    | none, _ => .error .usage
    | some flag, none => .ok (g, some flag)
    | some flag, some value => (g.give flag value).map (·, none)

/-- Read the words after those that made the last option wait for its value. -/
def readWords (allowed : List Flag) (g : Given) (waiting : Option Flag) :
    List String → Except Refusal Given
  | [] => if waiting.isSome then .error .usage else .ok g
  | word :: words =>
      match waiting, Shape.ofWord word with
      | some flag, .plain => do readWords allowed (← g.give flag word) none words
      | some _, _ => .error .usage
      | none, .plain => do readWords allowed (← g.giveProject word) none words
      | none, .stop => words.foldlM Given.giveProject g
      | none, .long name value => do
          let (g, waiting) ← readLong allowed g name value
          readWords allowed g waiting words
      | none, .short letters => do
          let (g, waiting) ← readLetters allowed g letters
          readWords allowed g waiting words

/-- The options of `export`. -/
def exportFlags : List Flag := [.out, .config, .indent, .maxDepth]

/-- The options of `check`. -/
def checkFlags : List Flag := [.config]

/-- A project has to be given. -/
def requireProject (g : Given) : Except Refusal Path :=
  match g.project with
  | some path => .ok path
  | none => .error .usage

/-- Read the words of a command line. -/
def parse : List String → Except Refusal Request
  | [] => .error .usage
  | "export" :: words => do
      let g ← readWords exportFlags .nothing none words
      return .compile (← requireProject g) g
  | "check" :: words => do
      let g ← readWords checkFlags .nothing none words
      return .check (← requireProject g) g.config
  | "help" :: _ => .error .help
  | word :: words =>
      match Shape.ofWord word with
      | .long name value => do
          let _ ← readLong [] .nothing name value
          parse words
      | .short letters => do
          let _ ← readLetters [] .nothing letters
          parse words
      | _ => .error .usage

end StoryGraph.Command
