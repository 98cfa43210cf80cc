import StoryGraph.Script.Label
import StoryGraph.Script.Line

/-!
# Emitting a scene

The bubbles of a scene are emitted along its sequence, each once. After a bubble comes the code of the
bubbles that its links lead to: in line where the target needs no label, and by a jump where it has one.
The link of a start is always followed in line. How many bubbles may follow each other in line is
bounded.

A link may lead to a bubble that needs no label and has been emitted elsewhere. Such a bubble is
stranded. The pass is then repeated with labels for those that were stranded, until none is. Stranded
bubbles are targets of connections, so that there are no more passes than targets, and one.
-/

namespace StoryGraph

/-- What a pass has emitted, and which bubbles it found stranded. -/
structure Progress where
  emitted : List Uid
  stranded : List Uid
deriving DecidableEq, Repr

/-- A part of a pass. -/
abbrev Emission := StateT Progress (Except Error)

namespace LabelPolicy

/-! ## One bubble

How the target of a link is emitted in line is a parameter here: `inline level uid` is the code of the
target and of all that follows it. -/

/-- The code behind a slot: a jump, the target in line, or the end of the scene. -/
def follow (p : LabelPolicy) (inline : Nat → Uid → Emission (List Item)) (slot : Slot) (level : Nat) :
    Emission (List Item) := do
  match p.scene.link? slot with
  | none => return [.line level .finish]
  | some c =>
      if p.needsLabel c.target then return [.line level (.goto (p.labelName c.target))]
      let progress ← get
      if c.target ∈ progress.emitted then
        set { progress with stranded := c.target :: progress.stranded }
        return []
      inline level c.target

/-- The code of the options of a choice. -/
def options (p : LabelPolicy) (inline : Nat → Uid → Emission (List Item)) (level : Nat) :
    List ChoiceOption → Emission (List Item)
  | [] => return []
  | option :: rest => do
      let code ← p.follow inline ⟨option.uid, .next⟩ (level + 2)
      return .line (level + 1) (.option option.text) :: code ++ (← p.options inline level rest)

/-- The code of a bubble and of what follows it. -/
def body (p : LabelPolicy) (inline : Nat → Uid → Emission (List Item)) (level : Nat) (uid : Uid) :
    BubbleKind → Emission (List Item)
  | .start =>
      match p.scene.link? ⟨uid, .next⟩ with
      | none => return [.line level .finish]
      | some c => inline level c.target
  | .story text => return Item.ofText level text ++ (← p.follow inline ⟨uid, .next⟩ level)
  | .action script => return Item.ofText level script ++ (← p.follow inline ⟨uid, .next⟩ level)
  | .choice options => return .line level .choice :: (← p.options inline level options)
  | .condition expression => do
      let holds ← p.follow inline ⟨uid, .whenTrue⟩ (level + 1)
      let fails ← p.follow inline ⟨uid, .whenFalse⟩ (level + 1)
      return .line level (.branch expression) :: holds ++ .line level .otherwise :: fails

/-- A bubble at a level, with its label if it needs one. A label takes it out to level 0. -/
def block (p : LabelPolicy) (inline : Nat → Uid → Emission (List Item)) (level : Nat) (b : Bubble) :
    Emission (List Item) := do
  if p.needsLabel b.uid then
    let code ← p.body inline 0 b.uid b.kind
    return [.blank, .line 0 (.label (p.labelName b.uid)), .enter b.uid] ++ code
  else
    return .enter b.uid :: (← p.body inline level b.uid b.kind)

/-! ## One pass -/

/-- The code of a bubble that has not been emitted, and of what follows it in line. At most `room`
bubbles may stand in that line; `limit` is only for the message when there are more. -/
def emitBubble (p : LabelPolicy) (limit room : Nat) (level : Nat) (uid : Uid) :
    Emission (List Item) := do
  let progress ← get
  if uid ∈ progress.emitted then return []
  match room with
  | 0 => throw (.depthLimitExceeded uid limit)
  | room + 1 =>
      set { progress with emitted := uid :: progress.emitted }
      match p.scene.bubble? uid with
      | none => return []
      | some b => p.block (p.emitBubble limit room) level b

/-- The code of bubbles that have not been emitted, one after the other. -/
def emitAll (p : LabelPolicy) (limit : Nat) : List Uid → Emission (List Item)
  | [] => return []
  | uid :: uids => return (← p.emitBubble limit (limit + 1) 0 uid) ++ (← p.emitAll limit uids)

/-- The code of the whole sequence, and what was met on the way. -/
def pass (p : LabelPolicy) (limit : Nat) : Except Error (List Item × Progress) :=
  (p.emitAll limit p.sequence).run ⟨[], []⟩

/-! ## Passes until none is stranded -/

/-- The bubbles that a pass left stranded, where the policy has not forced them yet. -/
def newlyStranded (p : LabelPolicy) (progress : Progress) : List Uid :=
  p.scene.targets.filter fun u ↦ u ∈ progress.stranded ∧ u ∉ p.forced

/-- The targets of connections that are not forced. -/
def unforced (p : LabelPolicy) : List Uid := p.scene.targets.filter (· ∉ p.forced)

theorem force_of_ne_nil {p : LabelPolicy} {group : List Uid}
    (h : group.filter (· ∉ p.forced) ≠ []) :
    (p.force group).2 =
      ofLabelling { p.toLabelling with forced := group.filter (· ∉ p.forced) ++ p.forced } := by
  unfold force
  split
  · rename_i heq
    exact absurd heq h
  · rfl

theorem length_unforced_force_lt {p : LabelPolicy} {progress : Progress}
    (h : p.newlyStranded progress ≠ []) :
    (p.force (p.newlyStranded progress)).2.unforced.length < p.unforced.length := by
  have hfilter : (p.newlyStranded progress).filter (· ∉ p.forced) = p.newlyStranded progress := by
    refine List.filter_eq_self.mpr fun u hu ↦ ?_
    simp only [newlyStranded, List.mem_filter, decide_eq_true_eq] at hu
    simpa using hu.2.2
  rw [force_of_ne_nil (by rwa [hfilter]), hfilter]
  obtain ⟨u, hu⟩ := List.exists_mem_of_ne_nil _ h
  have hmem : u ∈ p.unforced := by
    simp only [newlyStranded, List.mem_filter, decide_eq_true_eq] at hu
    simp [unforced, hu.1, hu.2.2]
  change (p.scene.targets.filter (· ∉ p.newlyStranded progress ++ p.forced)).length < _
  have hsub : p.scene.targets.filter (· ∉ p.newlyStranded progress ++ p.forced) =
      p.unforced.filter (· ∉ p.newlyStranded progress) := by
    simp only [unforced, List.filter_filter]
    congr 1
    funext x
    simp
  rw [hsub]
  exact List.length_filter_lt_length_iff_exists.mpr ⟨u, hmem, by simpa using hu⟩

/-- The code of a scene under a policy, or under one that forces more labels if it must, and the policy
that it came to. -/
def emit (p : LabelPolicy) (limit : Nat) : Except Error (List Item × LabelPolicy) :=
  match p.pass limit with
  | .error e => .error e
  | .ok (code, progress) =>
      if _h : p.newlyStranded progress = [] then .ok (code, p)
      else (p.force (p.newlyStranded progress)).2.emit limit
termination_by p.unforced.length
decreasing_by exact length_unforced_force_lt _h

end LabelPolicy

/-- The code of a scene along a sequence, and the policy that its labels follow. -/
def Scene.emit (s : Scene) (sequence : List Uid) (limit : Nat) :
    Except Error (List Item × LabelPolicy) :=
  (LabelPolicy.create s sequence).emit limit

end StoryGraph
