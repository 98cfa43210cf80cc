import StoryGraph.Json.Value

/-!
# Writing JSON

Two layouts: `compact` on one line without spaces, and `pretty` with two spaces for each level. In
strings the quotation mark, the backslash and the control characters are escaped, and nothing else.
-/

namespace StoryGraph.Json

def hexDigit (n : Nat) : Char := if n < 10 then .ofNat (48 + n) else .ofNat (87 + n)

/-- A character as it stands in a string. -/
def escape (c : Char) : List Char :=
  if c = '"' then ['\\', '"']
  else if c = '\\' then ['\\', '\\']
  else if c = '\x08' then ['\\', 'b']
  else if c = '\x0c' then ['\\', 'f']
  else if c = '\n' then ['\\', 'n']
  else if c = '\r' then ['\\', 'r']
  else if c = '\t' then ['\\', 't']
  else if c.toNat < 0x20 then
    ['\\', 'u', '0', '0', hexDigit (c.toNat / 16), hexDigit (c.toNat % 16)]
  else [c]

def quoted (s : String) : String := .ofList ('"' :: (s.toList.flatMap escape ++ ['"']))

/-- A value without parts. What no document of ours holds is written as `null`. -/
def scalar : Json → String
  | .bool true => "true"
  | .bool false => "false"
  | .int n => toString n
  | .str (some s) => quoted s
  | _ => "null"

mutual

/-- A value on one line. -/
def compact : Json → String
  | .arr items => "[" ++ compactItems items ++ "]"
  | .obj members => "\x7b" ++ compactMembers members ++ "\x7d"
  | v => v.scalar

def compactItems : List Json → String
  | [] => ""
  | [v] => v.compact
  | v :: vs => v.compact ++ "," ++ compactItems vs

def compactMembers : List (Option String × Json) → String
  | [] => ""
  | [(k, v)] => quoted (k.getD "") ++ ":" ++ v.compact
  | (k, v) :: ms => quoted (k.getD "") ++ ":" ++ v.compact ++ "," ++ compactMembers ms

end

/-- The start of a line at a level of nesting. -/
def margin (level : Nat) : String := .ofList ('\n' :: List.replicate (2 * level) ' ')

mutual

/-- A value over several lines, where `level` containers are open around it. -/
def prettyAt (level : Nat) : Json → String
  | .arr [] => "[]"
  | .arr items => "[" ++ prettyItems (level + 1) items ++ margin level ++ "]"
  | .obj [] => "\x7b\x7d"
  | .obj members => "\x7b" ++ prettyMembers (level + 1) members ++ margin level ++ "\x7d"
  | v => v.scalar

def prettyItems (level : Nat) : List Json → String
  | [] => ""
  | [v] => margin level ++ v.prettyAt level
  | v :: vs => margin level ++ v.prettyAt level ++ "," ++ prettyItems level vs

def prettyMembers (level : Nat) : List (Option String × Json) → String
  | [] => ""
  | [(k, v)] => margin level ++ quoted (k.getD "") ++ ": " ++ v.prettyAt level
  | (k, v) :: ms =>
      margin level ++ quoted (k.getD "") ++ ": " ++ v.prettyAt level ++ "," ++ prettyMembers level ms

end

/-- A value over several lines. -/
def pretty (v : Json) : String := v.prettyAt 0

end StoryGraph.Json
