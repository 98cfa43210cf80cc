import StoryGraph.Project.Basic
import StoryGraph.Scene.WellFormed

/-!
# Well-formed projects

What loading and editing keep true of a project: it is made of well-formed scenes under different
names, and its pool is exactly the uids that its scenes take up, each once.
-/

namespace StoryGraph.Project

/-- The uids that the scenes take up. -/
def uids (p : Project) : List Uid := p.scenes.flatMap (·.uids)

structure WellFormed (p : Project) : Prop where
  /-- No two scenes have one name. -/
  nodup_names : p.sceneNames.Nodup
  scenes : ∀ s ∈ p.scenes, s.WellFormed
  /-- No uid is taken twice, also not by two scenes. -/
  nodup_uids : p.uids.Nodup
  /-- A uid is in use exactly if a scene takes it up. -/
  mem_pool : ∀ u, u ∈ p.pool ↔ u ∈ p.uids

/-- A new project is well-formed. -/
theorem wellFormed_create (title author : String) : (create title author).WellFormed where
  nodup_names := by simp [create, sceneNames]
  scenes := by
    intro s hs
    obtain rfl : s = Scene.create startupName ⟨0⟩ := by simpa [create] using hs
    exact Scene.wellFormed_create _ _
  nodup_uids := by
    simpa [create, uids] using (Scene.wellFormed_create startupName ⟨0⟩).nodup_uids
  mem_pool := by
    intro u
    simp [create, uids, Scene.uids, Scene.create, Bubble.create, Bubble.uids, Bubble.optionUids,
      Bubble.options, BubbleKind.options]

end StoryGraph.Project
