import StoryGraph.Error
import StoryGraph.UpdateFirst

/-!
# Scenes

A scene is a graph: its bubbles in the order in which they came, and its connections in the order in
which they came. Nothing keeps a scene sound by itself, so every question is answered for any scene.
Where two bubbles have one uid, or two connections one slot, the first answers.
-/

namespace StoryGraph

structure Scene where
  name : String
  bubbles : List Bubble
  connections : List Connection
deriving DecidableEq, Repr

namespace Scene

/-- A scene with nothing but its start. -/
def create (name : String) (start : Uid) : Scene := ⟨name, [.create start .start], []⟩

/-! ## Bubbles and options -/

/-- The bubble of a uid. -/
def bubble? (s : Scene) (uid : Uid) : Option Bubble := s.bubbles.find? (·.uid = uid)

/-- The first start. -/
def start? (s : Scene) : Option Bubble := s.bubbles.find? (·.isStart)

/-- The bubble that holds an option. -/
def owner? (s : Scene) (option : Uid) : Option Bubble := s.bubbles.find? (option ∈ ·.optionUids)

/-- The bubble that a uid lies in: itself, or the owner of an option. -/
def container? (s : Scene) (uid : Uid) : Option Uid :=
  if (s.bubble? uid).isSome then some uid else (s.owner? uid).map (·.uid)

/-- The uids that the bubbles of a scene take up. -/
def uids (s : Scene) : List Uid := s.bubbles.flatMap (·.uids)

/-! ## Slots and connections -/

/-- Whether a link may leave from a slot. -/
def hasSlot (s : Scene) (slot : Slot) : Bool :=
  match s.bubble? slot.source with
  | some b => slot.exit ∈ b.exits
  | none => slot.exit = .next && (s.owner? slot.source).isSome

/-- Whether a link may end at a uid. -/
def isTarget (s : Scene) (uid : Uid) : Bool :=
  match s.bubble? uid with
  | some b => !b.isStart
  | none => false

/-- The connection of an id. -/
def connection? (s : Scene) (id : ConnectionId) : Option Connection :=
  s.connections.find? (·.id = id)

/-- The connection that leaves a slot. -/
def link? (s : Scene) (slot : Slot) : Option Connection := s.connections.find? (·.slot = slot)

/-- The slots of a uid, in the order in which its links are followed. A uid that no bubble has is
taken for an option. -/
def slots (s : Scene) (uid : Uid) : List Slot :=
  match s.bubble? uid with
  | none => [⟨uid, .next⟩]
  | some b =>
      if b.isChoice then b.optionUids.map (⟨·, .next⟩) else b.exits.map (⟨uid, ·⟩)

/-- The connections that leave a bubble, in the order of its slots. -/
def links (s : Scene) (uid : Uid) : List Connection := (s.slots uid).filterMap s.link?

/-- The connections that end at a bubble. -/
def incoming (s : Scene) (uid : Uid) : List Connection := s.connections.filter (·.target = uid)

/-- The uids at which connections end. -/
def targets (s : Scene) : List Uid := s.connections.map (·.target)

@[simp] theorem mem_incoming {s : Scene} {uid : Uid} {c : Connection} :
    c ∈ s.incoming uid ↔ c ∈ s.connections ∧ c.target = uid := by
  simp [incoming]

@[simp] theorem mem_targets {s : Scene} {uid : Uid} :
    uid ∈ s.targets ↔ ∃ c ∈ s.connections, c.target = uid := by
  simp [targets]

theorem slot_of_link? {s : Scene} {slot : Slot} {c : Connection} (h : s.link? slot = some c) :
    c.slot = slot := by
  simpa using List.find?_some h

theorem mem_connections_of_link? {s : Scene} {slot : Slot} {c : Connection}
    (h : s.link? slot = some c) : c ∈ s.connections := List.mem_of_find?_eq_some h

theorem mem_connections_of_mem_links {s : Scene} {uid : Uid} {c : Connection}
    (h : c ∈ s.links uid) : c ∈ s.connections := by
  obtain ⟨slot, -, hslot⟩ := List.mem_filterMap.mp h
  exact mem_connections_of_link? hslot

theorem mem_targets_of_mem_links {s : Scene} {uid : Uid} {c : Connection} (h : c ∈ s.links uid) :
    c.target ∈ s.targets := List.mem_map_of_mem (mem_connections_of_mem_links h)

/-! ## Small changes -/

/-- Change the bubble of a uid. -/
def updateBubble (s : Scene) (uid : Uid) (f : Bubble → Bubble) : Scene :=
  { s with bubbles := updateFirst (·.uid = uid) f s.bubbles }

end Scene

end StoryGraph
