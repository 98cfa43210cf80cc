import StoryGraph.Scene.Basic

/-!
# Editing a scene

A `Draft` is a scene with the pool that its uids come from. An edit that fails gives no new draft, and
the one before stays good. `removeOption` alone reports its draft in either case: it takes the link of
the option away first.
-/

namespace StoryGraph

structure Draft where
  scene : Scene
  pool : UidPool
deriving Repr

/-! ## Claiming uids -/

/-- Claim uids one after the other, all or none. -/
def UidPool.claimAll (p : UidPool) : List Uid → Except Error UidPool
  | [] => .ok p
  | u :: us =>
      match p.claim? u with
      | some p => p.claimAll us
      | none => .error (.duplicateUid u)

/-- Claim a uid. -/
def UidPool.claim (p : UidPool) (u : Uid) : Except Error UidPool := p.claimAll [u]

/-- Take the smallest uid that is free. -/
def UidPool.allocate (p : UidPool) : Except Error (Uid × UidPool) :=
  match p.allocate? with
  | some taken => .ok taken
  | none => .error .overflow

/-! ## Bubbles and options -/

namespace Draft

/-- Add a bubble under a fresh uid. The options of a choice keep theirs. -/
def addBubble (d : Draft) (kind : BubbleKind) : Except Error (Uid × Draft) := do
  if kind = .start then throw (.duplicateStart d.scene.name)
  let (uid, pool) ← d.pool.allocate
  let bubble := Bubble.create uid kind
  let pool ← pool.claimAll bubble.optionUids
  return (uid, ⟨{ d.scene with bubbles := d.scene.bubbles ++ [bubble] }, pool⟩)

/-- Add a bubble as it is, claiming its uids. -/
def insertBubble (d : Draft) (bubble : Bubble) : Except Error Draft := do
  if bubble.isStart && d.scene.start?.isSome then throw (.duplicateStart d.scene.name)
  let pool ← d.pool.claimAll bubble.uids
  return ⟨{ d.scene with bubbles := d.scene.bubbles ++ [bubble] }, pool⟩

/-- The bubble with one more option, if it is a choice. -/
def withOption (option : ChoiceOption) (b : Bubble) : Bubble :=
  match b.kind with
  | .choice options => { b with kind := .choice (options ++ [option]) }
  | _ => b

/-- The bubble without the first option of a uid. -/
def withoutOption (option : Uid) (b : Bubble) : Bubble :=
  match b.kind with
  | .choice options => { b with kind := .choice (options.eraseP (·.uid = option)) }
  | _ => b

/-- Add an option to a choice under a fresh uid. -/
def addOption (d : Draft) (choice : Uid) (text : String) : Except Error (Uid × Draft) := do
  match d.scene.bubble? choice with
  | none => throw (.bubbleNotFound choice)
  | some b =>
      if !b.isChoice then throw (.notAChoice choice)
      let (uid, pool) ← d.pool.allocate
      return (uid, ⟨d.scene.updateBubble choice (withOption ⟨uid, text⟩), pool⟩)

/-- Remove an option and the link that leaves it. The bubble that holds the option is looked up by its
uid. Where another bubble has that uid too and comes first, the option stays and only its link goes. -/
def removeOption (d : Draft) (option : Uid) : Except Error ChoiceOption × Draft :=
  match d.scene.owner? option with
  | none => (.error (.bubbleNotFound option), d)
  | some owner =>
      let kept := d.scene.connections.filter (·.source ≠ option)
      let scene := { d.scene with connections := kept }
      match (d.scene.bubble? owner.uid).bind (·.options.find? (·.uid = option)) with
      | none => (.error (.bubbleNotFound option), ⟨scene, d.pool⟩)
      | some removed =>
          (.ok removed, ⟨scene.updateBubble owner.uid (withoutOption option), d.pool.erase option⟩)

/-- Remove a bubble with its options and with every connection that leaves or reaches it. -/
def removeBubble (d : Draft) (uid : Uid) : Except Error (Bubble × Draft) := do
  match d.scene.bubble? uid with
  | none => throw (.bubbleNotFound uid)
  | some b =>
      if b.isStart then throw .cannotRemoveStart
      let bubbles := d.scene.bubbles.eraseP (·.uid = uid)
      let connections := d.scene.connections.filter fun c ↦ c.source ∉ b.uids ∧ c.target ≠ uid
      return (b, ⟨{ d.scene with bubbles, connections }, d.pool.eraseAll b.uids⟩)

end Draft

/-! ## Connections -/

namespace Scene

/-- The id above all others. -/
def nextConnectionId? (s : Scene) : Option ConnectionId :=
  ConnectionId.ofNat? (s.connections.foldl (fun n c ↦ max n (c.id.toNat + 1)) 0)

/-- Whether a slot can be linked to a target, and what is wrong if not. -/
def checkLink (s : Scene) (slot : Slot) (target : Uid) : Except Error Unit := do
  if (s.container? slot.source).isNone then throw (.bubbleNotFound slot.source)
  if !s.hasSlot slot then throw (.noSlot slot)
  if (s.container? target).isNone then throw (.bubbleNotFound target)
  if !s.isTarget target then throw (.invalidTarget target)

/-- Link a slot to a bubble. What left the slot before is removed. -/
def connect (s : Scene) (slot : Slot) (target : Uid) (sourceAnchor targetAnchor : Anchor) :
    Except Error (ConnectionId × Scene) := do
  s.checkLink slot target
  let s := { s with connections := s.connections.filter (·.slot ≠ slot) }
  match s.nextConnectionId? with
  | none => throw .overflow
  | some id =>
      let connection := ⟨id, slot, target, sourceAnchor, targetAnchor⟩
      return (id, { s with connections := s.connections ++ [connection] })

/-- Remove the connection of an id. -/
def disconnect (s : Scene) (id : ConnectionId) : Except Error (Connection × Scene) :=
  match s.connection? id with
  | none => .error (.connectionNotFound id)
  | some c => .ok (c, { s with connections := s.connections.eraseP (·.id = id) })

end Scene

end StoryGraph
