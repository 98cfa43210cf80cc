import StoryGraph.Json.Fields
import StoryGraph.Json.Reader
import StoryGraph.Options

/-!
# Options as JSON

The fields of options are decoded one after the other in the order of the text, because the first thing
that is wrong decides the answer: an indent that is refused is named, and all else that can be wrong is
not.
-/

namespace StoryGraph

open Json (record)

namespace Indent

def toJson : Indent → Json
  | .tab => .text "tab"
  | .spaces width => .int width.toNat

/-- What an indent as JSON has to be read as: a string, or a number of one byte. -/
def textOf? : Json → Option String
  | .str text => text
  | v => (v.natBelow? 256).map Nat.repr

/-- Read an indent. One that is refused is named. -/
def ofJson (v : Json) : Except Error Indent :=
  match textOf? v with
  | none => .error (.malformed none)
  | some text =>
      match parse text with
      | .ok indent => .ok indent
      | .error _ => .error (.malformed (some (Text.trim text)))

end Indent

namespace Options

def toJson (o : Options) : Json :=
  record [("indent", o.indent.toJson), ("max_depth", .int o.maxDepth.toNat)]

/-- The options that have been given so far. -/
structure Given where
  indent : Option Indent
  maxDepth : Option UInt64
deriving DecidableEq, Repr

namespace Given

/-- The options, with the usual ones in place of those that are not given. -/
def toOptions (g : Given) : Options :=
  ⟨g.indent.getD (default : Options).indent, g.maxDepth.getD (default : Options).maxDepth⟩

/-- Read the next option. -/
def read (g : Given) (key : String) (v : Json) : Except Error Given :=
  match key with
  | "indent" =>
      if g.indent.isSome then .error (.malformed none)
      else (Indent.ofJson v).map fun indent ↦ { g with indent := some indent }
  | "max_depth" =>
      match g.maxDepth, v.uint64? with
      | none, some depth => .ok { g with maxDepth := some depth }
      | _, _ => .error (.malformed none)
  | _ => .ok g

/-- Read options by their names. -/
def readMembers (g : Given) : List (Option String × Json) → Except Error Given
  | [] => .ok g
  | (none, _) :: _ => .error (.malformed none)
  | (some key, v) :: members => do (← g.read key v).readMembers members

/-- Read options in their order. -/
def readItems (g : Given) : List String → List Json → Except Error Given
  | _, [] => .ok g
  | [], _ :: _ => .error (.malformed none)
  | key :: keys, v :: items => do (← g.read key v).readItems keys items

end Given

/-- The options of a text. -/
def ofText (text : String) : Except Error Options := do
  let (v, clean) := Json.scan text
  let given ← match v with
    | .obj members => Given.readMembers ⟨none, none⟩ members
    | .arr items => Given.readItems ⟨none, none⟩ ["indent", "max_depth"] items
    | _ => throw (.malformed none)
  if clean then return given.toOptions else throw (.malformed none)

end Options

end StoryGraph
