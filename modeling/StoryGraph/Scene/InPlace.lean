import StoryGraph.Scene.Edit

/-!
# Editing a scene in place

Here edits are carried out step by step on a draft that changes under them. What an edit has done by the
time it fails stays done, unless the edit takes it back. A uid that is claimed is in use at once, and goes
back to the pool if a later one is refused.
-/

namespace StoryGraph

/-- Steps that change a state. What they have changed stays changed where they fail. -/
abbrev InPlace (σ : Type) := ExceptT Error (StateM σ)

namespace InPlace

variable {σ α β : Type}

/-- Carry out steps. This gives what they come to, and the state that they leave behind. -/
def runFrom (s : σ) (x : InPlace σ α) : Except Error α × σ := x.run.run s

/-- The steps of a function on states. -/
def ofFun (f : σ → Except Error α × σ) : InPlace σ α := ExceptT.mk f

/-- Go on with what a check gives, or fail with what it finds wrong. -/
def check (x : Except Error α) : InPlace σ α := ExceptT.mk (pure x)

/-! ## What steps leave behind -/

@[simp] theorem runFrom_ofFun (s : σ) (f : σ → Except Error α × σ) : (ofFun f).runFrom s = f s := rfl

@[simp] theorem runFrom_check (s : σ) (x : Except Error α) : (check x).runFrom s = (x, s) := rfl

@[simp] theorem runFrom_pure (s : σ) (a : α) : (pure a : InPlace σ α).runFrom s = (.ok a, s) := rfl

@[simp] theorem runFrom_throw (s : σ) (e : Error) :
    (throw e : InPlace σ α).runFrom s = (.error e, s) := rfl

@[simp] theorem runFrom_get (s : σ) : (get : InPlace σ σ).runFrom s = (.ok s, s) := rfl

@[simp] theorem runFrom_set (s s' : σ) : (set s' : InPlace σ PUnit).runFrom s = (.ok ⟨⟩, s') := rfl

@[simp] theorem runFrom_modify (s : σ) (f : σ → σ) :
    (modify f : InPlace σ PUnit).runFrom s = (.ok ⟨⟩, f s) := rfl

theorem runFrom_bind (s : σ) (x : InPlace σ α) (f : α → InPlace σ β) :
    (x >>= f).runFrom s =
      match x.runFrom s with
      | (.ok a, s) => (f a).runFrom s
      | (.error e, s) => (.error e, s) := by
  unfold runFrom ExceptT.run StateT.run
  simp only [bind, ExceptT.bind, ExceptT.mk, StateT.bind, ExceptT.bindCont]
  rcases x s with ⟨_ | _, _⟩ <;> rfl

theorem runFrom_tryCatch (s : σ) (x : InPlace σ α) (f : Error → InPlace σ α) :
    (tryCatch x f).runFrom s =
      match x.runFrom s with
      | (.ok a, s) => (.ok a, s)
      | (.error e, s) => (f e).runFrom s := by
  unfold runFrom ExceptT.run StateT.run
  simp only [tryCatch, tryCatchThe, MonadExceptOf.tryCatch, ExceptT.tryCatch, ExceptT.mk, bind, StateT.bind]
  rcases x s with ⟨_ | _, _⟩ <;> rfl

/-! ## Uids -/

/-- Take the smallest uid that is free. -/
def allocate : InPlace Draft Uid := do
  let (uid, pool) ← check (← get).pool.allocate
  modify fun d ↦ { d with pool }
  return uid

def claim (u : Uid) : InPlace Draft Unit := do
  match (← get).pool.claim? u with
  | some pool => modify fun d ↦ { d with pool }
  | none => throw (.duplicateUid u)

def release (us : List Uid) : InPlace Draft Unit :=
  modify fun d ↦ { d with pool := d.pool.eraseAll us }

/-- Claim uids one after the other, where some have been claimed already. At the first one that is in use
these are released. -/
def claimAll (claimed : List Uid) : List Uid → InPlace Draft Unit
  | [] => pure ()
  | u :: us => do
      tryCatch (claim u) fun e ↦ do
        release claimed
        throw e
      claimAll (claimed ++ [u]) us

/-! ## Bubbles and options -/

def pushBubble (bubble : Bubble) : InPlace Draft Unit :=
  modify fun d ↦ { d with scene := { d.scene with bubbles := d.scene.bubbles ++ [bubble] } }

/-- Add a bubble under a fresh uid. The uid is released if an option cannot keep its own. -/
def addBubble (kind : BubbleKind) : InPlace Draft Uid := do
  if kind = .start then throw (.duplicateStart (← get).scene.name)
  let uid ← allocate
  let bubble := Bubble.create uid kind
  tryCatch (claimAll [] bubble.optionUids) fun e ↦ do
    release [uid]
    throw e
  pushBubble bubble
  return uid

/-- Add a bubble as it is, claiming its uids. -/
def insertBubble (bubble : Bubble) : InPlace Draft Unit := do
  let scene := (← get).scene
  if bubble.isStart && scene.start?.isSome then throw (.duplicateStart scene.name)
  claimAll [] bubble.uids
  pushBubble bubble

/-- Add an option to a choice under a fresh uid. -/
def addOption (choice : Uid) (text : String) : InPlace Draft Uid := do
  match (← get).scene.bubble? choice with
  | none => throw (.bubbleNotFound choice)
  | some b =>
      if !b.isChoice then throw (.notAChoice choice)
      let uid ← allocate
      modify fun d ↦
        { d with scene := d.scene.updateBubble choice (Draft.withOption ⟨uid, text⟩) }
      return uid

/-- Remove an option. The link that leaves it goes before the option is looked for in its owner. -/
def removeOption (option : Uid) : InPlace Draft ChoiceOption := .ofFun fun d ↦ d.removeOption option

/-- Remove a bubble, then every connection that leaves or reaches it, and then its uids. -/
def removeBubble (uid : Uid) : InPlace Draft Bubble := do
  match (← get).scene.bubble? uid with
  | none => throw (.bubbleNotFound uid)
  | some b =>
      if b.isStart then throw .cannotRemoveStart
      modify fun d ↦ { d with scene.bubbles := d.scene.bubbles.eraseP (·.uid = uid) }
      modify fun d ↦ { d with
        scene.connections := d.scene.connections.filter fun c ↦ c.source ∉ b.uids ∧ c.target ≠ uid }
      release b.uids
      return b

/-! ## Connections -/

/-- Link a slot to a bubble. What left the slot before is removed before an id is looked for. -/
def connect (slot : Slot) (target : Uid) (sourceAnchor targetAnchor : Anchor) :
    InPlace Draft ConnectionId := do
  check ((← get).scene.checkLink slot target)
  modify fun d ↦ { d with scene.connections := d.scene.connections.filter (·.slot ≠ slot) }
  match (← get).scene.nextConnectionId? with
  | none => throw .overflow
  | some id =>
      let connection := ⟨id, slot, target, sourceAnchor, targetAnchor⟩
      modify fun d ↦ { d with scene.connections := d.scene.connections ++ [connection] }
      return id

/-- Remove the connection of an id. -/
def disconnect (id : ConnectionId) : InPlace Draft Connection := do
  match (← get).scene.connection? id with
  | none => throw (.connectionNotFound id)
  | some c =>
      modify fun d ↦ { d with scene.connections := d.scene.connections.eraseP (·.id = id) }
      return c

end InPlace

end StoryGraph
