import StoryGraph.Json.Fields
import StoryGraph.Json.Writer
import StoryGraph.Json.Reader
import StoryGraph.Scene.Basic

/-!
# Scenes as JSON

Each part of a scene has a form as a JSON value, and a decoder that takes this form, and others that
leave out what has a default.
-/

namespace StoryGraph

open Json (text record)

/-! ## Names from a fixed choice -/

namespace Exit

def ofName? : String → Option Exit
  | "next" => some .next
  | "true" => some .whenTrue
  | "false" => some .whenFalse
  | _ => none

def toJson (p : Exit) : Json := text p.name

def ofJson? (v : Json) : Option Exit := v.name?.bind ofName?

end Exit

namespace Anchor

def ofName? : String → Option Anchor
  | "north" => some .north
  | "east" => some .east
  | "south" => some .south
  | "west" => some .west
  | _ => none

def toJson (a : Anchor) : Json := text a.name

def ofJson? (v : Json) : Option Anchor := v.name?.bind ofName?

end Anchor

namespace BubbleType

def ofName? : String → Option BubbleType
  | "start" => some .start
  | "story" => some .story
  | "choice" => some .choice
  | "action" => some .action
  | "condition" => some .condition
  | _ => none

/-- The type of a number, as the kinds of bubbles are counted. -/
def ofIndex? : Int → Option BubbleType
  | 0 => some .start
  | 1 => some .story
  | 2 => some .action
  | 3 => some .condition
  | 4 => some .choice
  | _ => none

def toJson (t : BubbleType) : Json := text t.name

def ofJson? (v : Json) : Option BubbleType := v.name?.bind ofName?

end BubbleType

/-! ## Uids and connections -/

namespace Uid

def toJson (u : Uid) : Json := .int u.toNat

def ofJson? (v : Json) : Option Uid := v.uint32?.map Uid.mk

end Uid

namespace ConnectionId

def toJson (id : ConnectionId) : Json := .int id.toNat

def ofJson? (v : Json) : Option ConnectionId := v.uint32?.map ConnectionId.mk

end ConnectionId

namespace Connection

def toJson (c : Connection) : Json :=
  record [("id", c.id.toJson), ("from", c.slot.source.toJson), ("port", c.slot.exit.toJson),
    ("to", c.target.toJson), ("from_anchor", c.sourceAnchor.toJson),
    ("to_anchor", c.targetAnchor.toJson)]

def ofJson? (v : Json) : Option Connection := do
  let f ← v.fields? ["id", "from", "port", "to", "from_anchor", "to_anchor"]
  let id ← f.required? "id" ConnectionId.ofJson?
  let source ← f.required? "from" Uid.ofJson?
  let exit ← f.optional? "port" .next Exit.ofJson?
  let target ← f.required? "to" Uid.ofJson?
  let sourceAnchor ← f.optional? "from_anchor" .south Anchor.ofJson?
  let targetAnchor ← f.optional? "to_anchor" .north Anchor.ofJson?
  return ⟨id, ⟨source, exit⟩, target, sourceAnchor, targetAnchor⟩

end Connection

/-! ## Bubbles -/

namespace ChoiceOption

def toJson (o : ChoiceOption) : Json := record [("uid", o.uid.toJson), ("text", Json.text o.text)]

def ofJson? (v : Json) : Option ChoiceOption := do
  let f ← v.fields? ["uid", "text"]
  return ⟨← f.required? "uid" Uid.ofJson?, ← f.optional? "text" "" Json.text?⟩

end ChoiceOption

namespace BubbleKind

/-- What a bubble holds, under the name that it goes by. -/
def payload : BubbleKind → List (String × Json)
  | .start => []
  | .story words => [("text", text words)]
  | .action script => [("script", text script)]
  | .condition expression => [("expression", text expression)]
  | .choice options => [("options", .arr (options.map ChoiceOption.toJson))]

/-- The members that tell a kind. -/
def members (k : BubbleKind) : List (String × Json) := ("type", k.type.toJson) :: k.payload

def toJson (k : BubbleKind) : Json := record k.members

/-- The names of what a bubble of a type holds. -/
def fieldNames : BubbleType → List String
  | .start => []
  | .story => ["text"]
  | .action => ["script"]
  | .condition => ["expression"]
  | .choice => ["options"]

/-- The kind of a type, from what the bubble holds. -/
def ofFields? (t : BubbleType) (f : Json.Fields) : Option BubbleKind :=
  match t with
  | .start => some .start
  | .story => (f.optional? "text" "" Json.text?).map .story
  | .action => (f.optional? "script" "" Json.text?).map .action
  | .condition => (f.optional? "expression" "" Json.text?).map .condition
  | .choice => (f.optional? "options" [] (Json.list? ChoiceOption.ofJson?)).map .choice

/-- The kind that members tell, where `readType` reads the type. There has to be one type, and every
value has to be one that can be held. -/
def ofMembers? (readType : Json → Option BubbleType) (members : List (String × Json)) :
    Option BubbleKind := do
  guard (members.all fun (_, v) ↦ v.plain)
  let types ← Json.select? ["type"] members
  let t ← types.required? "type" readType
  let f ← Json.select? (fieldNames t) members
  ofFields? t f

/-- The type of a string. -/
def typeOfText? (v : Json) : Option BubbleType := v.text?.bind BubbleType.ofName?

/-- The type of a string or of a number. -/
def typeOfTextOrIndex? : Json → Option BubbleType
  | .int n => BubbleType.ofIndex? n
  | v => typeOfText? v

/-- A kind by itself: an object, or an array of the type and what the bubble holds. -/
def ofJson? : Json → Option BubbleKind
  | .arr (t :: items) => do
      let t ← typeOfText? t
      guard (items.all Json.plain)
      ofFields? t (← (Json.arr items).fields? (fieldNames t))
  | v => v.members?.bind (ofMembers? typeOfText?)

end BubbleKind

namespace Bubble

def toJson (b : Bubble) : Json :=
  record ([("uid", b.uid.toJson), ("label", text b.label), ("order", .int b.order.toInt),
    ("locked", .bool b.locked)] ++ b.kind.members)

/-- The names of what every bubble has. -/
def fieldNames : List String := ["uid", "label", "order", "locked"]

/-- A bubble is an object that tells its kind beside what every bubble has. -/
def ofJson? (v : Json) : Option Bubble := do
  let members ← v.members?
  let f ← Json.select? fieldNames members
  let uid ← f.required? "uid" Uid.ofJson?
  let label ← f.optional? "label" "" Json.text?
  let order ← f.optional? "order" 0 Json.int64?
  let locked ← f.optional? "locked" false Json.bool?
  let kind ← BubbleKind.ofMembers? BubbleKind.typeOfTextOrIndex?
    (members.filter fun (key, _) ↦ key ∉ fieldNames)
  return ⟨uid, label, order, locked, kind⟩

end Bubble

/-! ## Scenes -/

namespace Scene

def toJson (s : Scene) : Json :=
  record [("name", text s.name), ("bubbles", .arr (s.bubbles.map Bubble.toJson)),
    ("connections", .arr (s.connections.map Connection.toJson))]

def ofJson? (v : Json) : Option Scene := do
  let f ← v.fields? ["name", "bubbles", "connections"]
  let name ← f.required? "name" Json.text?
  let bubbles ← f.optional? "bubbles" [] (Json.list? Bubble.ofJson?)
  let connections ← f.optional? "connections" [] (Json.list? Connection.ofJson?)
  return ⟨name, bubbles, connections⟩

end Scene

/-- The value that a text writes, decoded. -/
def Json.decode {α : Type} (ofJson? : Json → Option α) (text : String) : Except Error α :=
  match (Json.read? text).bind ofJson? with
  | some a => .ok a
  | none => .error (.malformed none)

end StoryGraph
