import StoryGraph.Document.Scene
import StoryGraph.Project.Load

/-! # Projects as JSON -/

namespace StoryGraph

open Json (text record)

namespace Variable

/-- A global variable says nothing about a scene. -/
def toJson (v : Variable) : Json :=
  record ([("name", text v.name), ("value", text v.value)] ++
    v.owner.toList.map fun owner ↦ ("scene", text owner))

def ofJson? (v : Json) : Option Variable := do
  let f ← v.fields? ["name", "value", "scene"]
  let name ← f.required? "name" Json.text?
  let value ← f.optional? "value" "" Json.text?
  let owner ← f.optional? "scene" none (Json.nullable? Json.text?)
  return ⟨name, value, owner⟩

end Variable

namespace ProjectFile

def toJson (f : ProjectFile) : Json :=
  record [("format_version", .int f.version.toNat), ("title", text f.title),
    ("author", text f.author), ("scenes", .arr (f.scenes.map Scene.toJson)),
    ("variables", .arr (f.vars.map Variable.toJson))]

def ofJson? (v : Json) : Option ProjectFile := do
  let f ← v.fields? ["format_version", "title", "author", "scenes", "variables"]
  let version ← f.required? "format_version" Json.uint32?
  let title ← f.optional? "title" "" Json.text?
  let author ← f.optional? "author" "" Json.text?
  let scenes ← f.optional? "scenes" [] (Json.list? Scene.ofJson?)
  let vars ← f.optional? "variables" [] (Json.list? Variable.ofJson?)
  return ⟨version, title, author, scenes, vars⟩

end ProjectFile

namespace Project

/-- The text of the file of a project. -/
def toText (p : Project) : String := p.toFile.toJson.pretty

/-- The project of the text of a file. -/
def ofText (text : String) : Except Error (Project × LoadReport) := do
  (← Json.decode ProjectFile.ofJson? text).load

end Project

end StoryGraph
