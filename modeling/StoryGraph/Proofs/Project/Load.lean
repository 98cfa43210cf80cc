import StoryGraph.Document.Project
import StoryGraph.Project.WellFormed
import StoryGraph.Proofs.Scene.Edit

/-!
# Loaded projects are well-formed

The checks that a file goes through say all of a project but what concerns its connections, and those are
repaired afterwards.
-/

namespace StoryGraph

/-- A scene that is checked has one start. -/
theorem Scene.countP_of_checkStart {s : Scene} (h : s.checkStart = .ok ()) :
    s.bubbles.countP (·.isStart) = 1 := by
  unfold checkStart at h
  split at h
  · contradiction
  · assumption
  · contradiction

namespace ProjectFile

/-- `Checked names pool ss pool'`: beside taken names and a pool, scenes are fine but for their
connections, and with their uids the pool is another. -/
structure Checked (names : List String) (pool : UidPool) (ss : List Scene) (pool' : UidPool) :
    Prop where
  not_mem_names : ∀ s ∈ ss, s.name ∉ names
  nodup_names : (ss.map (·.name)).Nodup
  scenes : ∀ s ∈ ss, s.bubbles.countP (·.isStart) = 1 ∧ s.uids.Nodup
  nodup_uids : (ss.flatMap (·.uids)).Nodup
  /-- The scenes take up free uids. -/
  free : ∀ u ∈ ss.flatMap (·.uids), u ∉ pool
  mem_pool : ∀ u, u ∈ pool' ↔ u ∈ ss.flatMap (·.uids) ∨ u ∈ pool

theorem Checked.cons {names : List String} {pool claimed pool' : UidPool} {s : Scene} {ss : List Scene}
    (hname : s.name ∉ names) (hstart : s.checkStart = .ok ())
    (hclaim : pool.claimAll s.uids = .ok claimed) (h : Checked (s.name :: names) claimed ss pool') :
    Checked names pool (s :: ss) pool' := by
  obtain ⟨hnodup, hfree, hclaimed⟩ := UidPool.of_claimAll hclaim
  constructor
  · refine List.forall_mem_cons.mpr ⟨hname, ?_⟩
    intro t ht hmem
    exact h.not_mem_names t ht (List.mem_cons_of_mem _ hmem)
  · refine List.nodup_cons.mpr ⟨?_, h.nodup_names⟩
    intro hmem
    obtain ⟨t, ht, heq⟩ := List.mem_map.mp hmem
    exact h.not_mem_names t ht (heq ▸ List.mem_cons_self)
  · exact List.forall_mem_cons.mpr ⟨⟨Scene.countP_of_checkStart hstart, hnodup⟩, h.scenes⟩
  · rw [List.flatMap_cons]
    refine List.nodup_append'.mpr ⟨hnodup, h.nodup_uids, ?_⟩
    intro u hu hu'
    exact h.free u hu' ((hclaimed u).mpr (.inl hu))
  · intro u hu
    rcases List.mem_append.mp (List.flatMap_cons ▸ hu) with hu | hu
    · exact hfree u hu
    · exact fun hmem ↦ h.free u hu ((hclaimed u).mpr (.inr hmem))
  · intro u
    rw [h.mem_pool, hclaimed, List.flatMap_cons, List.mem_append]
    tauto

theorem of_checkScenes {names : List String} {pool pool' : UidPool} {ss : List Scene}
    (h : checkScenes names pool ss = .ok pool') : Checked names pool ss pool' := by
  induction ss generalizing names pool with
  | nil =>
      obtain rfl := Except.ok.inj h
      constructor <;> simp
  | cons s ss ih =>
      rw [checkScenes] at h
      split at h
      · contradiction
      · rename_i hname
        obtain ⟨_, hstart, h⟩ := bind_eq_ok.mp h
        obtain ⟨claimed, hclaim, h⟩ := bind_eq_ok.mp h
        exact .cons hname hstart hclaim (ih h)

theorem wellFormed_of_load {f : ProjectFile} {p : Project} {r : LoadReport}
    (h : f.load = .ok (p, r)) : p.WellFormed := by
  unfold load at h
  split at h
  · contradiction
  · obtain ⟨pool, hcheck, h⟩ := bind_eq_ok.mp h
    obtain ⟨rfl, -⟩ := Prod.mk.inj (Except.ok.inj h)
    have hchecked := of_checkScenes hcheck
    have hnames' : (f.scenes.map (·.repair.1)).map (·.name) = f.scenes.map (·.name) := List.map_map
    have huids : (f.scenes.map (·.repair.1)).flatMap (·.uids) = f.scenes.flatMap (·.uids) :=
      List.flatMap_map ..
    constructor
    · rw [Project.sceneNames, hnames']
      exact hchecked.nodup_names
    · intro s hs
      obtain ⟨t, ht, rfl⟩ := List.mem_map.mp hs
      obtain ⟨hstart, hnodup⟩ := hchecked.scenes t ht
      exact Scene.wellFormed_repair hstart hnodup
    · rw [Project.uids, huids]
      exact hchecked.nodup_uids
    · intro u
      rw [hchecked.mem_pool, Project.uids, huids]
      simp

end ProjectFile

/-- A project of the text of a file is well-formed. -/
theorem Project.wellFormed_of_ofText {text : String} {p : Project} {r : LoadReport}
    (h : Project.ofText text = .ok (p, r)) : p.WellFormed := by
  obtain ⟨f, -, hload⟩ := bind_eq_ok.mp h
  exact ProjectFile.wellFormed_of_load hload

end StoryGraph
