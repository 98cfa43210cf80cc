import StoryGraph.Connection

/-!
# Errors

What can go wrong, each with the one line that tells it.
-/

namespace StoryGraph

/-- Why a file or a directory could not be used. -/
inductive FileError where
  | notFound
  | alreadyExists
  | notADirectory
  | isADirectory
  | nameTooLong
  /-- The content is no UTF-8 text. -/
  | notText
  /-- The path holds a NUL character, which no file system takes. -/
  | nulInPath
  | other (text : String)
deriving DecidableEq, Repr

def FileError.message : FileError → String
  | .notFound => "No such file or directory (os error 2)"
  | .alreadyExists => "File exists (os error 17)"
  | .notADirectory => "Not a directory (os error 20)"
  | .isADirectory => "Is a directory (os error 21)"
  | .nameTooLong => "File name too long (os error 36)"
  | .notText => "stream did not contain valid UTF-8"
  | .nulInPath => "file name contained an unexpected NUL byte"
  | .other text => text

inductive Error where
  | duplicateUid (uid : Uid)
  | bubbleNotFound (uid : Uid)
  | connectionNotFound (id : ConnectionId)
  | sceneNotFound (name : String)
  | duplicateScene (name : String)
  | duplicateStart (scene : String)
  | missingStart (scene : String)
  | noSlot (slot : Slot)
  | notAChoice (uid : Uid)
  /-- A start or an option, where a link cannot end. -/
  | invalidTarget (uid : Uid)
  | cannotRemoveStart
  | cannotRemoveStartup
  | cannotRenameStartup
  | missingStartup
  | depthLimitExceeded (uid : Uid) (limit : Nat)
  | unsupportedVersion (version : UInt32)
  | invalidIndent (text : String)
  | file (path : String) (cause : FileError)
  /-- A text that is no document. Where an indent in it is refused, `indent` is the refused text. -/
  | malformed (indent : Option String)
  /-- A number that has no successor in its range. -/
  | overflow
deriving DecidableEq, Repr

namespace Error

/-- What is wrong with an indent. -/
def indentMessage (text : String) : String :=
  "invalid compile option: indent must be 'tab' or a positive number of spaces, got '" ++ text ++ "'"

/-- The line that tells an error. Where a text is no document, it leaves out the cause that a reader of JSON has,
which would stand at the end behind a colon. -/
def message : Error → String
  | .duplicateUid uid => "UID " ++ toString uid ++ " is already in use"
  | .bubbleNotFound uid => "bubble not found: " ++ toString uid
  | .connectionNotFound id => "connection not found: " ++ toString id
  | .sceneNotFound name => "scene not found: " ++ name
  | .duplicateScene name => "a scene named '" ++ name ++ "' already exists"
  | .duplicateStart scene => "scene '" ++ scene ++ "' already has a start bubble"
  | .missingStart scene => "scene '" ++ scene ++ "' has no start bubble"
  | .noSlot slot =>
      "bubble " ++ toString slot.source ++ " has no '" ++ slot.exit.name ++ "' link slot"
  | .notAChoice uid => "bubble " ++ toString uid ++ " is not a choice bubble"
  | .invalidTarget uid => "bubble " ++ toString uid ++ " cannot be the target of a link"
  | .cannotRemoveStart => "the start bubble of a scene cannot be removed"
  | .cannotRemoveStartup => "the startup scene cannot be removed"
  | .cannotRenameStartup => "the startup scene cannot be renamed"
  | .missingStartup => "project has no 'startup' scene"
  | .depthLimitExceeded uid limit =>
      "script emission exceeded the maximum depth of " ++ limit.repr ++ " at bubble " ++ toString uid
  | .unsupportedVersion version => "unsupported project format version " ++ version.toNat.repr
  | .invalidIndent text => indentMessage text
  | .file path cause => "I/O error at " ++ path ++ ": " ++ cause.message
  | .malformed _ => "malformed project file"
  | .overflow => "attempt to add with overflow"

end Error

end StoryGraph
