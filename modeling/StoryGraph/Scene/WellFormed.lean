import StoryGraph.Scene.Repair

/-!
# Well-formed scenes

What loading and editing keep true of a scene. It can be decided, so that a scene can be tried.
-/

namespace StoryGraph.Scene

structure WellFormed (s : Scene) : Prop where
  /-- There is one start. -/
  start_unique : s.bubbles.countP (·.isStart) = 1
  /-- No uid is taken twice. -/
  nodup_uids : s.uids.Nodup
  /-- Every connection leaves a slot of the scene and ends where a link may end. -/
  resolves : ∀ c ∈ s.connections, s.resolves c
  /-- No two connections have one id. -/
  nodup_ids : (s.connections.map (·.id)).Nodup
  /-- No two connections leave one slot. -/
  nodup_slots : (s.connections.map (·.slot)).Nodup

theorem wellFormed_iff (s : Scene) :
    s.WellFormed ↔ s.bubbles.countP (·.isStart) = 1 ∧ s.uids.Nodup ∧
      (∀ c ∈ s.connections, s.resolves c) ∧ (s.connections.map (·.id)).Nodup ∧
      (s.connections.map (·.slot)).Nodup :=
  ⟨fun h ↦ ⟨h.1, h.2, h.3, h.4, h.5⟩, fun ⟨h₁, h₂, h₃, h₄, h₅⟩ ↦ ⟨h₁, h₂, h₃, h₄, h₅⟩⟩

instance (s : Scene) : Decidable s.WellFormed := decidable_of_iff' _ s.wellFormed_iff

/-- A scene with nothing but its start is well-formed. -/
theorem wellFormed_create (name : String) (start : Uid) : (create name start).WellFormed where
  start_unique := rfl
  nodup_uids := by simp [create, uids, Bubble.create, Bubble.uids, Bubble.optionUids,
    Bubble.options, BubbleKind.options]
  resolves := by simp [create]
  nodup_ids := .nil
  nodup_slots := .nil

end StoryGraph.Scene
