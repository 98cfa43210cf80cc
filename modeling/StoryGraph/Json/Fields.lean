import StoryGraph.Json.Value

/-!
# Taking values apart

Decoders of scalars and lists, and the fields of a record. A record is an object, where a field may
come once and a name that is no field is passed over, or an array of its fields in order, where fields
are left out only at the end.
-/

namespace StoryGraph.Json

def bool? : Json → Option Bool
  | .bool b => some b
  | _ => none

def text? : Json → Option String
  | .str text => text
  | _ => none

/-- A number below `bound`. -/
def natBelow? (bound : Nat) : Json → Option Nat
  | .int (.ofNat n) => if n < bound then some n else none
  | _ => none

def uint32? (v : Json) : Option UInt32 := (v.natBelow? UInt32.size).map Nat.toUInt32

def uint64? (v : Json) : Option UInt64 := (v.natBelow? UInt64.size).map Nat.toUInt64

def int64? : Json → Option Int64
  | .int n => if Int64.minValue.toInt ≤ n ∧ n ≤ Int64.maxValue.toInt then some n.toInt64 else none
  | _ => none

def list? {α : Type} (decode : Json → Option α) : Json → Option (List α)
  | .arr items => items.mapM decode
  | _ => none

/-- A value that may be `null`. -/
def nullable? {α : Type} (decode : Json → Option α) : Json → Option (Option α)
  | .null => some none
  | v => (decode v).map some

/-- A name from a fixed choice: a string, or an object that gives `null` to the name. -/
def name? : Json → Option String
  | .str text => text
  | .obj [(key, .null)] => key
  | _ => none

/-- The members of an object whose keys are all Unicode text. -/
def members? : Json → Option (List (String × Json))
  | .obj members => members.mapM fun (key, v) ↦ key.map fun key ↦ (key, v)
  | _ => none

/-- The fields that a record gives. -/
abbrev Fields := List (String × Json)

/-- The members whose keys are among the names. No key may come twice. -/
def select? (names : List String) (members : List (String × Json)) : Option Fields :=
  let known := members.filter fun (key, _) ↦ key ∈ names
  if (known.map Prod.fst).Nodup then some known else none

/-- The fields of a record whose fields have these names. -/
def fields? (names : List String) : Json → Option Fields
  | .arr items => if items.length ≤ names.length then some (names.zip items) else none
  | v => v.members?.bind (select? names)

namespace Fields

variable {α : Type}

/-- A field that has to be there. -/
def required? (f : Fields) (name : String) (decode : Json → Option α) : Option α :=
  (f.lookup name).bind decode

/-- A field with a default. -/
def optional? (f : Fields) (name : String) (default : α) (decode : Json → Option α) : Option α :=
  match f.lookup name with
  | some v => decode v
  | none => some default

end Fields

end StoryGraph.Json
