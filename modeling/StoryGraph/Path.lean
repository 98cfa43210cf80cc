/-!
# Paths

A path is a text cut at its slashes. The parent and the name of a path pass over what names nothing:
an empty segment or a single dot at the end. All other segments stay as they were written.
-/

namespace StoryGraph

structure Path where
  /-- Whether it begins at the root. -/
  rooted : Bool
  /-- The texts between the slashes after the root. -/
  segments : List String
deriving DecidableEq, Repr

namespace Path

/-- The texts between the slashes; an empty text has none. -/
def cut (cs : List Char) : List String :=
  if cs.isEmpty then [] else (cs.splitOn '/').map .ofList

def ofText (text : String) : Path :=
  match text.toList with
  | '/' :: cs => ⟨true, cut cs⟩
  | cs => ⟨false, cut cs⟩

def text (p : Path) : String :=
  .ofList ((if p.rooted then ['/'] else []) ++ ['/'].intercalate (p.segments.map String.toList))

theorem intercalate_cut (cs : List Char) : ['/'].intercalate ((cut cs).map String.toList) = cs := by
  cases cs with
  | nil => rfl
  | cons c cs =>
      have h : (cut (c :: cs)).map String.toList = (c :: cs).splitOn '/' := by
        simp [cut, Function.comp_def]
      rw [h, List.intercalate_splitOn]

/-- A path is written as it was read. -/
@[simp] theorem text_ofText (text : String) : (ofText text).text = text := by
  simp only [ofText]
  split
  · rename_i cs h
    simp only [Path.text, if_true, intercalate_cut]
    rw [List.singleton_append, ← h, String.ofList_toList]
  · simp [Path.text, intercalate_cut]

instance : ToString Path := ⟨text⟩

/-- The path with nothing in it. -/
def empty : Path := ⟨false, []⟩

/-- The directory that relative paths start from. -/
def here : Path := ⟨false, ["."]⟩

/-- Whether a segment at the end of a path names nothing. -/
def isIdle (segment : String) : Bool := segment = "" || segment = "."

/-- The segments, last one first, from the last that names something. The dot at the front of a
relative path counts as a name. -/
def significant (p : Path) : List String :=
  match p.rooted, p.segments with
  | false, "." :: segments => (segments.reverse.dropWhile isIdle) ++ ["."]
  | _, segments => segments.reverse.dropWhile isIdle

/-- A path without the segments at its end that name nothing. -/
def trimmed (p : Path) : Path := ⟨p.rooted, p.significant.reverse⟩

/-- The directory that holds what a path names. -/
def parent? (p : Path) : Option Path :=
  match p.significant with
  | [] => none
  | _ :: around => some (trimmed ⟨p.rooted, around.reverse⟩)

theorem length_significant_le (p : Path) : p.significant.length ≤ p.segments.length := by
  obtain ⟨rooted, segments⟩ := p
  simp only [significant]
  split
  · rename_i rest
    have := (List.dropWhile_suffix (l := rest.reverse) isIdle).length_le
    simp only [List.length_reverse] at this
    simp only [List.length_append, List.length_cons, List.length_nil]
    omega
  · have := (List.dropWhile_suffix (l := segments.reverse) isIdle).length_le
    simpa using this

/-- The parent of a path has fewer segments. -/
theorem length_segments_lt_of_parent? {p q : Path} (h : p.parent? = some q) :
    q.segments.length < p.segments.length := by
  unfold parent? at h
  split at h
  · contradiction
  · rename_i name around hp
    obtain rfl := Option.some.inj h
    have h₁ := length_significant_le p
    have h₂ := length_significant_le ⟨p.rooted, around.reverse⟩
    simp only [hp, List.length_cons] at h₁
    simp only [trimmed, List.length_reverse] at h₂ ⊢
    omega

/-- The directory that holds what a path names, unless the path says nothing about it. -/
def directory? (p : Path) : Option Path := p.parent?.filter (· ≠ empty)

/-- The name at the end of a path, unless it ends in dots that stand for a directory. -/
def fileName? (p : Path) : Option String :=
  match p.significant with
  | [] => none
  | name :: _ => if name = "." ∨ name = ".." then none else some name

/-- A file name in front of its last dot and behind it. A dot at the front does not count. -/
def splitName (name : String) : String × Option String :=
  let extension := name.toList.reverse.takeWhile (· ≠ '.')
  match name.toList.reverse.dropWhile (· ≠ '.') with
  | '.' :: c :: stem => (.ofList (c :: stem).reverse, some (.ofList extension.reverse))
  | _ => (name, none)

/-- The file name without its extension. -/
def stem? (p : Path) : Option String := p.fileName?.map fun name ↦ (splitName name).1

def extension? (p : Path) : Option String := p.fileName?.bind fun name ↦ (splitName name).2

/-- Drop one empty segment at the end. -/
def openEnd (segments : List String) : List String :=
  if segments.getLast? = some "" then segments.dropLast else segments

/-- A path seen from a directory. A rooted path is the same from everywhere. -/
def append (base p : Path) : Path :=
  if p.rooted then p else ⟨base.rooted, openEnd base.segments ++ p.segments⟩

/-- A name, or a path in its place, inside a directory. -/
def join (base : Path) (name : String) : Path := base.append (ofText name)

end Path

end StoryGraph
