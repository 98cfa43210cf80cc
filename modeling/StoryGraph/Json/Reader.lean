import StoryGraph.Json.Token

/-!
# Reading JSON

The tokens of a text drive a machine that holds the containers still open around the next value, the
innermost first. `scan` reads as far as a text is JSON and says whether all of it is; `read?` accepts
the whole text or nothing.
-/

namespace StoryGraph.Json

/-- A container that waits for a value inside it. What it has already is held backwards. -/
inductive Frame where
  | item (done : List Json)
  | member (done : List (Option String × Json)) (key : Option String)
deriving Repr

/-- What has been read, and what may come next. -/
inductive Reading where
  /-- A value comes next. -/
  | value (around : List Frame)
  /-- An array has begun: its first item or its end comes next. -/
  | firstItem (around : List Frame)
  | afterItem (done : List Json) (around : List Frame)
  /-- An object has begun: its first key or its end comes next. -/
  | firstKey (around : List Frame)
  | nextKey (done : List (Option String × Json)) (around : List Frame)
  | colon (done : List (Option String × Json)) (key : Option String) (around : List Frame)
  | afterMember (done : List (Option String × Json)) (around : List Frame)
  /-- The outermost value is complete, and `clean` says that nothing is wrong with the text. -/
  | ended (v : Json) (clean : Bool)
deriving Repr

/-- Whether a container with these around it lies too deep. -/
def tooDeep (around : List Frame) : Bool := !(around.drop (maxNesting - 1)).isEmpty

namespace Reading

/-- Go on after a value. -/
def after (v : Json) : List Frame → Reading
  | [] => .ended v true
  | .item done :: around => .afterItem (v :: done) around
  | .member done key :: around => .afterMember ((key, v) :: done) around

/-- Go on after a container. -/
def afterContainer (v : Json) (around : List Frame) : Reading :=
  after (if tooDeep around then .deep else v) around

/-- Close every container around a value at which the text breaks off. -/
def breakOff (v : Json) : List Frame → Json
  | [] => v
  | .item done :: around =>
      breakOff (if tooDeep around then .broken else .arr (v :: done).reverse) around
  | .member done key :: around =>
      breakOff (if tooDeep around then .broken else .obj ((key, v) :: done).reverse) around

/-- The outermost value where the text is no JSON from here on. -/
def broken : Reading → Json
  | .value around => breakOff .broken around
  | .firstItem around => breakOff .broken (.item [] :: around)
  | .afterItem done around => breakOff .broken (.item done :: around)
  | .firstKey around => breakOff .broken (.member [] none :: around)
  | .nextKey done around => breakOff .broken (.member done none :: around)
  | .colon done key around => breakOff .broken (.member done key :: around)
  | .afterMember done around => breakOff .broken (.member done none :: around)
  | .ended v _ => v

/-- Read a token where a value may begin. -/
def begin? (around : List Frame) : Token → Option Reading
  | .beginArr => some (.firstItem around)
  | .beginObj => some (.firstKey around)
  | .string text => some (after (.str text) around)
  | .scalar v => some (after v around)
  | _ => none

/-- Read a token, if it may come next. -/
def step? : Reading → Token → Option Reading
  | .value around, t => begin? around t
  | .firstItem around, .endArr => some (afterContainer (.arr []) around)
  | .firstItem around, t => begin? (.item [] :: around) t
  | .afterItem done around, .comma => some (.value (.item done :: around))
  | .afterItem done around, .endArr => some (afterContainer (.arr done.reverse) around)
  | .firstKey around, .endObj => some (afterContainer (.obj []) around)
  | .firstKey around, .string key => some (.colon [] key around)
  | .nextKey done around, .string key => some (.colon done key around)
  | .colon done key around, .colon => some (.value (.member done key :: around))
  | .afterMember done around, .comma => some (.nextKey done around)
  | .afterMember done around, .endObj => some (afterContainer (.obj done.reverse) around)
  | _, _ => none

/-- Read tokens up to the first that may not come next. -/
def run (r : Reading) : List Token → Reading
  | [] => r
  | t :: ts =>
      match r.step? t with
      | some r => r.run ts
      | none => .ended r.broken false

/-- The value read so far, and whether it is complete and correct. -/
def result : Reading → Json × Bool
  | .ended v clean => (v, clean)
  | r => (r.broken, false)

end Reading

/-- As much of a text as is JSON, and whether that is all of it. -/
def scan (text : String) : Json × Bool := ((Reading.value []).run (tokens text)).result

/-- The value that a text writes. -/
def read? (text : String) : Option Json :=
  match scan text with
  | (v, true) => some v
  | (_, false) => none

end StoryGraph.Json
