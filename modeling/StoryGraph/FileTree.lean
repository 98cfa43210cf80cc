import StoryGraph.Files

/-!
# A file tree as a value

A tree of directories and files, with the directory that relative paths start from. It answers file
operations the way a file system does, down to the error, so that what the library does with files can
be said and tried without any.
-/

namespace StoryGraph

/-- The names on the way from a place up to the root, the name of the place itself first. -/
abbrev Location := List String

inductive Node where
  | dir
  | file (content : ByteArray)

instance : DecidableEq Node
  | .dir, .dir => isTrue rfl
  | .dir, .file _ | .file _, .dir => isFalse nofun
  | .file a, .file b => decidable_of_iff (a.data = b.data) (by simp [ByteArray.ext_iff])

structure FileTree where
  /-- What is at which location. The root is a directory without an entry. -/
  nodes : List (Location × Node)
  current : Location
deriving DecidableEq

namespace FileTree

def node? (t : FileTree) (l : Location) : Option Node :=
  if l = [] then some .dir else t.nodes.lookup l

/-- The tree with a node at a location, in place of what was there. -/
def put (t : FileTree) (l : Location) (n : Node) : FileTree :=
  { t with nodes := (l, n) :: t.nodes.filter (·.1 ≠ l) }

theorem lookup_filter_ne {k l : Location} (h : k ≠ l) (nodes : List (Location × Node)) :
    (nodes.filter (·.1 ≠ l)).lookup k = nodes.lookup k := by
  induction nodes with
  | nil => rfl
  | cons entry nodes ih =>
      obtain ⟨place, node⟩ := entry
      by_cases hl : place = l
      · subst hl
        have hk : (k == place) = false := beq_false_of_ne h
        simpa [List.lookup_cons, hk] using ih
      · simp only [ne_eq, hl, not_false_eq_true, decide_true, List.filter_cons_of_pos,
          List.lookup_cons]
        rw [← ih]

/-- What is put at a location is there. -/
@[simp] theorem node?_put_self {t : FileTree} {l : Location} {n : Node} (h : l ≠ []) :
    (t.put l n).node? l = some n := by
  simp [node?, put, h]

/-- All other locations stay as they are. -/
theorem node?_put_of_ne {t : FileTree} {k l : Location} {n : Node} (h : k ≠ l) :
    (t.put l n).node? k = t.node? k := by
  have hk : (k == l) = false := beq_false_of_ne h
  simp only [node?, put, List.lookup_cons, hk, lookup_filter_ne h]

/-- A tree with nothing but the directory that relative paths start from and those around it. -/
def create (current : Location) : FileTree :=
  ⟨(List.range current.length).map fun i ↦ (current.drop i, .dir), current⟩

/-! ## Finding a place -/

/-- The most bytes that a name may have. -/
def maxName : Nat := 255

/-- The first size in bytes that a path may not have. -/
def maxPath : Nat := 4096

/-- Enter a directory of a directory. -/
def enter (t : FileTree) (l : Location) (name : String) : Except FileError Location :=
  if maxName < name.utf8ByteSize then .error .nameTooLong
  else
    match t.node? (name :: l) with
    | none => .error .notFound
    | some (.file _) => .error .notADirectory
    | some .dir => .ok (name :: l)

/-- Go through segments that have to name directories. -/
def walk (t : FileTree) (l : Location) : List String → Except FileError Location
  | [] => .ok l
  | name :: names => do
      if Path.isIdle name then t.walk l names
      else if name = ".." then t.walk l.tail names
      else t.walk (← t.enter l name) names

/-- What a path leads to. -/
structure Place where
  /-- The directory that the path leads to or that holds what it names. -/
  dir : Location
  /-- What the path names in the directory, if anything. -/
  name : Option String
  /-- Whether the path ends with a slash. -/
  slash : Bool
deriving DecidableEq, Repr

namespace Place

def location (p : Place) : Location :=
  match p.name with
  | some name => name :: p.dir
  | none => p.dir

/-- Whether a name of that length can be in a directory. -/
def hasLongName (p : Place) : Bool := p.name.any (maxName < ·.utf8ByteSize)

end Place

/-- Go where a path leads, as far as the directory that holds what it names. -/
def find (t : FileTree) (p : Path) : Except FileError Place := do
  if p.text.contains '\x00' then throw .nulInPath
  if p = .empty then throw .notFound
  if maxPath ≤ p.text.utf8ByteSize then throw .nameTooLong
  let start := if p.rooted then [] else t.current
  let slash := p.segments.getLast? = some ""
  match p.segments.reverse.dropWhile (· = "") with
  | [] => return ⟨start, none, slash⟩
  | last :: before =>
      let dir ← t.walk start before.reverse
      if last = "." then return ⟨dir, none, slash⟩
      if last = ".." then return ⟨dir.tail, none, slash⟩
      return ⟨dir, some last, slash⟩

/-! ## The operations -/

/-- The place of a path, unless its name is too long. -/
def findNode (t : FileTree) (p : Path) : Except FileError (Place × Option Node) := do
  let place ← t.find p
  if place.hasLongName then throw .nameTooLong
  return (place, t.node? place.location)

def read (t : FileTree) (p : Path) : Except FileError ByteArray := do
  match ← t.findNode p with
  | (_, none) => throw .notFound
  | (_, some .dir) => throw .isADirectory
  | (place, some (.file content)) => if place.slash then throw .notADirectory else return content

def write (t : FileTree) (p : Path) (content : ByteArray) : Except FileError FileTree := do
  let place ← t.find p
  if place.slash || place.name.isNone then throw .isADirectory
  match ← t.findNode p with
  | (_, some .dir) => throw .isADirectory
  | (place, _) => return t.put place.location (.file content)

def makeDir (t : FileTree) (p : Path) : Except FileError FileTree := do
  match ← t.findNode p with
  | (_, some _) => throw .alreadyExists
  | (place, none) => return t.put place.location .dir

def isDir (t : FileTree) (p : Path) : Bool :=
  match t.findNode p with
  | .ok (_, some .dir) => true
  | _ => false

/-- The files at or below a location, with the names on the way down to them. -/
def filesBelow (t : FileTree) (l : Location) : List (List String × ByteArray) :=
  t.nodes.filterMap fun (place, node) ↦
    match node with
    | .file content => if l.isSuffixOf place then
        some ((place.take (place.length - l.length)).reverse, content) else none
    | .dir => none

/-- Keep the tree after an operation that fails. -/
def attempt (op : FileTree → Except FileError FileTree) : StateM FileTree (Except FileError Unit) := do
  match op (← get) with
  | .ok t => set t; return .ok ()
  | .error e => return .error e

instance : MonadFiles (StateM FileTree) where
  readFile p := return (← get).read p
  writeFile p text := attempt (·.write p text.toUTF8)
  makeDir p := attempt (·.makeDir p)
  isDir p := return (← get).isDir p

end FileTree

end StoryGraph
