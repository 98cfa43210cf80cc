import StoryGraph.Indent

/-! # Options of a compilation -/

namespace StoryGraph

structure Options where
  indent : Indent
  /-- How many bubbles may follow each other inline before emission gives up. -/
  maxDepth : UInt64
deriving DecidableEq, Repr

instance : Inhabited Options := ⟨⟨.spaces 4, 1024⟩⟩

end StoryGraph
