import StoryGraph.Scene.Basic

/-!
# Reachable bubbles

The uids that links lead to from the start, found breadth first. The search ends because each uid that
it finds anew is the target of a connection, and a scene has only so many.
-/

namespace StoryGraph.Scene

/-- The uids of a list that are not among those seen, each once. -/
def unseen (seen : List Uid) : List Uid → List Uid
  | [] => []
  | u :: us => if u ∈ seen then unseen seen us else u :: unseen (u :: seen) us

theorem mem_of_mem_unseen {seen us : List Uid} {u : Uid} (h : u ∈ unseen seen us) : u ∈ us := by
  induction us generalizing seen with
  | nil => simp [unseen] at h
  | cons v vs ih =>
      simp only [unseen] at h
      split at h
      · exact List.mem_cons_of_mem _ (ih h)
      · rcases List.mem_cons.mp h with rfl | h
        · exact List.mem_cons_self
        · exact List.mem_cons_of_mem _ (ih h)

theorem not_mem_of_mem_unseen {seen us : List Uid} {u : Uid} (h : u ∈ unseen seen us) :
    u ∉ seen := by
  induction us generalizing seen with
  | nil => simp [unseen] at h
  | cons v vs ih =>
      simp only [unseen] at h
      split at h
      · exact ih h
      · rcases List.mem_cons.mp h with rfl | h
        · assumption
        · exact fun hu ↦ ih h (List.mem_cons_of_mem _ hu)

/-- The targets of connections that have not been seen. -/
def unseenTargets (s : Scene) (seen : List Uid) : List Uid := s.targets.filter (· ∉ seen)

theorem length_unseenTargets_lt {s : Scene} {seen found : List Uid} {u : Uid} (hu : u ∈ found)
    (hs : u ∉ seen) (ht : u ∈ s.targets) :
    (s.unseenTargets (seen ++ found)).length < (s.unseenTargets seen).length := by
  have hsub : s.unseenTargets (seen ++ found) = (s.unseenTargets seen).filter (· ∉ found) := by
    simp only [unseenTargets, List.filter_filter]
    congr 1
    funext x
    simp [Bool.and_comm]
  rw [hsub]
  refine List.length_filter_lt_length_iff_exists.mpr ⟨u, ?_, by simpa using hu⟩
  simp [unseenTargets, hs, ht]

/-- Follow the links of the uids that wait, and of every uid found on the way. -/
def explore (s : Scene) (seen : List Uid) : List Uid → List Uid
  | [] => seen
  | u :: waiting =>
      let found := unseen seen ((s.links u).map (·.target))
      s.explore (seen ++ found) (waiting ++ found)
termination_by waiting => ((s.unseenTargets seen).length, waiting.length)
decreasing_by
  by_cases h : unseen seen ((s.links u).map (·.target)) = []
  · simp only [h, List.append_nil]
    exact Prod.Lex.right _ (by simp)
  · obtain ⟨v, hv⟩ := List.exists_mem_of_ne_nil _ h
    obtain ⟨c, hc, rfl⟩ := List.mem_map.mp (mem_of_mem_unseen hv)
    exact Prod.Lex.left _ _ (length_unseenTargets_lt hv (not_mem_of_mem_unseen hv)
      (mem_targets_of_mem_links hc))

/-- The uids that the links lead to from the start, the start with them. -/
def reachable (s : Scene) : List Uid :=
  match s.start? with
  | none => []
  | some start => s.explore [start.uid] [start.uid]

end StoryGraph.Scene
