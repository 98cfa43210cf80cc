import Mathlib.Logic.Relation
import StoryGraph.Scene.Reachable

/-!
# What can be reached

The search from the start finds the uids that links lead to, and no others: what it has seen is closed under
links once nothing waits, and whatever holds of the start and is passed on by links holds of all it sees.
Nothing is asked of the scene.
-/

namespace StoryGraph.Scene

/-- Whether a link of one uid ends at another. -/
def LinksTo (s : Scene) (u v : Uid) : Prop := ∃ c ∈ s.links u, c.target = v

/-- Whether links lead from one uid to another. -/
def LeadsTo (s : Scene) : Uid → Uid → Prop := Relation.ReflTransGen s.LinksTo

variable {s : Scene}

theorem mem_append_unseen {seen us : List Uid} {u : Uid} :
    u ∈ seen ++ unseen seen us ↔ u ∈ seen ∨ u ∈ us := by
  induction us generalizing seen with
  | nil => simp [unseen]
  | cons v vs ih =>
      rw [unseen]
      split
      · rename_i hv
        rw [ih, List.mem_cons]
        constructor
        · exact Or.imp_right .inr
        · rintro (hu | rfl | hu)
          · exact .inl hu
          · exact .inl hv
          · exact .inr hu
      · have hshift : u ∈ seen ++ v :: unseen (v :: seen) vs ↔
            u ∈ (v :: seen) ++ unseen (v :: seen) vs := by
          simp only [List.mem_append, List.mem_cons]
          exact ⟨fun h ↦ h.elim (.inl ∘ .inr) (Or.imp_left .inl), fun h ↦
            h.elim (fun h ↦ h.elim (.inr ∘ .inl) .inl) (.inr ∘ .inr)⟩
        rw [hshift, ih, List.mem_cons, List.mem_cons, or_assoc, or_left_comm]

theorem explore_nil (s : Scene) (seen : List Uid) : s.explore seen [] = seen := by rw [explore]

theorem explore_cons (s : Scene) (seen : List Uid) (u : Uid) (waiting : List Uid) :
    s.explore seen (u :: waiting) =
      s.explore (seen ++ unseen seen ((s.links u).map (·.target)))
        (waiting ++ unseen seen ((s.links u).map (·.target))) := by rw [explore]

/-- What is seen from some uids stays seen. -/
theorem subset_explore (s : Scene) (seen waiting : List Uid) : seen ⊆ s.explore seen waiting := by
  induction seen, waiting using explore.induct s with
  | case1 seen =>
      rw [explore_nil]
      exact List.Subset.refl seen
  | case2 seen u waiting found =>
      rename_i ih
      rw [explore_cons]
      exact fun v hv ↦ ih (List.mem_append_left _ hv)

/-- A search sees only what its links lead to. -/
theorem explore_induction {P : Uid → Prop} (hlinks : ∀ u v, P u → s.LinksTo u v → P v)
    {seen waiting : List Uid} (hseen : ∀ u ∈ seen, P u) (hwaiting : ∀ u ∈ waiting, P u) :
    ∀ u ∈ s.explore seen waiting, P u := by
  induction seen, waiting using explore.induct s with
  | case1 seen =>
      rw [explore_nil]
      exact hseen
  | case2 seen u waiting found =>
      rename_i ih
      obtain ⟨hu, hwaiting⟩ := List.forall_mem_cons.mp hwaiting
      have hfound : ∀ v ∈ found, P v := by
        intro v hv
        obtain ⟨c, hc, rfl⟩ := List.mem_map.mp (mem_of_mem_unseen hv)
        exact hlinks u c.target hu ⟨c, hc, rfl⟩
      rw [explore_cons]
      exact ih (List.forall_mem_append.mpr ⟨hseen, hfound⟩)
        (List.forall_mem_append.mpr ⟨hwaiting, hfound⟩)

/-- A search leaves no link out: what has been seen and does not wait has had its links followed. -/
theorem explore_closed {seen waiting : List Uid}
    (hseen : ∀ u ∈ seen, u ∈ waiting ∨ ∀ v, s.LinksTo u v → v ∈ seen) :
    ∀ u ∈ s.explore seen waiting, ∀ v, s.LinksTo u v → v ∈ s.explore seen waiting := by
  induction seen, waiting using explore.induct s with
  | case1 seen =>
      rw [explore_nil]
      intro u hu
      exact (hseen u hu).resolve_left List.not_mem_nil
  | case2 seen u waiting found =>
      rename_i ih
      rw [explore_cons]
      refine ih ?_
      intro v hv
      rcases List.mem_append.mp hv with hv | hv
      · rcases hseen v hv with hwaits | hfollowed
        · rcases List.mem_cons.mp hwaits with rfl | hwaits
          · right
            rintro w ⟨c, hc, rfl⟩
            exact mem_append_unseen.mpr (.inr (List.mem_map_of_mem hc))
          · exact .inl (List.mem_append_left _ hwaits)
        · exact .inr fun w hw ↦ List.mem_append_left _ (hfollowed w hw)
      · exact .inl (List.mem_append_right _ hv)

/-- What is reachable is what links lead to from the start. -/
theorem mem_reachable_iff {start : Bubble} (hstart : s.start? = some start) {u : Uid} :
    u ∈ s.reachable ↔ s.LeadsTo start.uid u := by
  simp only [reachable, hstart]
  constructor
  · refine explore_induction (fun _ _ h hlink ↦ h.tail hlink) ?_ ?_ u <;> simp [LeadsTo, Relation.ReflTransGen.refl]
  · intro h
    induction h with
    | refl => exact s.subset_explore _ _ List.mem_cons_self
    | tail _ hlink ih => exact explore_closed (by simp) _ ih _ hlink

end StoryGraph.Scene
