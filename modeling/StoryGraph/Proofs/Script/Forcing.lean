import StoryGraph.Proofs.Script.Naming

/-!
# Forcing labels in any order

Labels are forced group by group, and after each group that brings something new the names are given anew.
That a bubble is forced is all that counts afterwards: not when, nor with which others, nor how often. For
names are given along the sequence and not in the order of forcing. So a policy is determined by the set of
uids that have been forced.
-/

namespace StoryGraph

/-- The order of what is forced does not show in any label. -/
theorem Labelling.SameLabels.of_mem_forced_iff {l m : Labelling} (hscene : l.scene = m.scene)
    (hsequence : l.sequence = m.sequence) (hforced : ∀ u, u ∈ l.forced ↔ u ∈ m.forced) : l.SameLabels m := by
  obtain ⟨scene, sequence, forced⟩ := l
  obtain ⟨scene', sequence', forced'⟩ := m
  obtain rfl : scene = scene' := hscene
  obtain rfl : sequence = sequence' := hsequence
  refine ⟨rfl, fun u ↦ ?_, fun _ ↦ rfl⟩
  simp only [needsLabel, show u ∈ forced ↔ u ∈ forced' from hforced u]
  rfl

namespace LabelPolicy

variable {p : LabelPolicy} {group : List Uid} {groups : List (List Uid)} {u : Uid}

theorem mem_forced_force : u ∈ (p.force group).2.forced ↔ u ∈ group ∨ u ∈ p.forced := by
  have hmem : u ∈ group ∨ u ∈ p.forced ↔ u ∈ group.filter (· ∉ p.forced) ++ p.forced := by
    rw [List.mem_append, List.mem_filter, decide_eq_true_iff]
    tauto
  rw [hmem, force]
  split
  · rename_i hnone
    rw [hnone, List.nil_append]
  · exact .rfl

/-- Forcing a group is new exactly if one of the group was not forced. -/
theorem fst_force_eq_true_iff : (p.force group).1 = true ↔ ∃ u ∈ group, u ∉ p.forced := by
  rw [force]
  split
  · rename_i hnone
    rw [List.filter_eq_nil_iff] at hnone
    simpa using hnone
  · rename_i hsome
    obtain ⟨u, hu⟩ := List.exists_mem_of_ne_nil _ hsome
    exact iff_of_true rfl ⟨u, by simpa using hu⟩

theorem mem_forced_forceAll : u ∈ (p.forceAll groups).forced ↔ u ∈ groups.flatten ∨ u ∈ p.forced := by
  induction groups generalizing p with
  | nil => simp [forceAll]
  | cons group groups ih =>
      change u ∈ ((p.force group).2.forceAll groups).forced ↔ _
      rw [ih, mem_forced_force, List.flatten_cons, List.mem_append]
      tauto

/-- What has been forced in a new policy are the uids of the groups. -/
theorem mem_forced_forceAll_create {s : Scene} {sequence : List Uid} :
    u ∈ ((create s sequence).forceAll groups).forced ↔ u ∈ groups.flatten :=
  mem_forced_forceAll.trans (or_iff_left List.not_mem_nil)

/-- Whatever has been forced in a new policy, the same bubbles need labels and are called the same where the
same uids have been forced, in any order, in any groups and any number of times. To force another group is
new exactly if one of it was in no group. And the uids that are named are those of the sequence that need a
label. -/
theorem determined_by_forced (s : Scene) (sequence : List Uid) (groups : List (List Uid)) :
    let p := (create s sequence).forceAll groups
    (∀ groups' : List (List Uid), (∀ u, u ∈ groups'.flatten ↔ u ∈ groups.flatten) →
      let p' := (create s sequence).forceAll groups'
      ∀ u, p'.needsLabel u = p.needsLabel u ∧ p'.labelName u = p.labelName u) ∧
    (∀ group, (p.force group).1 = true ↔ ∃ u ∈ group, u ∉ groups.flatten) ∧
    ∀ u, u ∈ p.names.map (·.1) ↔ u ∈ sequence ∧ p.needsLabel u := by
  intro p
  refine ⟨?_, ?_, ?_⟩
  · intro groups' hunion p' u
    obtain ⟨hscene, hsequence⟩ := (create s sequence).of_forceAll groups
    obtain ⟨hscene', hsequence'⟩ := (create s sequence).of_forceAll groups'
    have hforced : ∀ u, u ∈ p'.forced ↔ u ∈ p.forced := by
      simp only [p, p', mem_forced_forceAll_create, hunion, implies_true]
    have hsame : p'.toLabelling.SameLabels p.toLabelling :=
      .of_mem_forced_iff (hscene'.trans hscene.symm) (hsequence'.trans hsequence.symm) hforced
    exact ⟨hsame.needsLabel_eq u, labelName_eq_of_sameLabels hsame u⟩
  · intro group
    simp only [p, fst_force_eq_true_iff, mem_forced_forceAll_create]
  · intro u
    have hsequence : p.sequence = sequence := ((create s sequence).of_forceAll groups).2
    rw [p.names_eq, Labelling.mem_map_fst_names, hsequence]

end LabelPolicy

/-- Two gates that nothing leads to. -/
def Scene.twoGates : Scene where
  name := "gates"
  bubbles := [⟨⟨1⟩, "gate", 0, false, .story ""⟩, ⟨⟨2⟩, "gate", 0, false, .story ""⟩]
  connections := []

namespace LabelPolicy

open Scene

/-- The first gate is called otherwise once the second one is forced as well, whichever comes first. -/
theorem determined_by_forced_twoGates :
    ((create twoGates [⟨1⟩, ⟨2⟩]).forceAll [[⟨1⟩]]).labelName ⟨1⟩ = "gate" ∧
      ((create twoGates [⟨1⟩, ⟨2⟩]).forceAll [[⟨1⟩], [⟨2⟩]]).labelName ⟨1⟩ = "gate_1" ∧
      ((create twoGates [⟨1⟩, ⟨2⟩]).forceAll [[⟨2⟩, ⟨2⟩], [⟨2⟩, ⟨1⟩]]).labelName ⟨1⟩ = "gate_1" ∧
      (((create twoGates [⟨1⟩, ⟨2⟩]).forceAll [[⟨1⟩], [⟨2⟩]]).force [⟨2⟩, ⟨1⟩]).1 = false := by
  obtain ⟨hsame, hnew, -⟩ := determined_by_forced twoGates [⟨1⟩, ⟨2⟩] [[⟨1⟩], [⟨2⟩]]
  have hname : ((create twoGates [⟨1⟩, ⟨2⟩]).forceAll [[⟨1⟩], [⟨2⟩]]).labelName ⟨1⟩ = "gate_1" := by
    decide +kernel
  have hunion : ∀ u : Uid, u ∈ [[⟨2⟩, ⟨2⟩], [⟨2⟩, ⟨1⟩]].flatten ↔ u ∈ [[⟨1⟩], [⟨2⟩]].flatten := by
    intro u
    simp only [List.flatten_cons, List.flatten_nil, List.append_nil, List.mem_append, List.mem_cons,
      List.not_mem_nil, or_false]
    tauto
  refine ⟨by decide +kernel, hname, (hsame _ hunion ⟨1⟩).2.trans hname, ?_⟩
  rw [← Bool.not_eq_true, hnew]
  decide

end LabelPolicy

end StoryGraph
