import StoryGraph.Proofs.Project.Admission
import StoryGraph.Proofs.Scene.Repair

/-!
# Saving and loading

The text of a well-formed project loads as the project. Its file passes every check, because that is what
being well-formed says; there is nothing to repair; and the pool that is claimed anew has the same
members, which for pools is to be the same.
-/

namespace StoryGraph

namespace Project

variable {p : Project}

theorem WellFormed.admissible (h : p.WellFormed) : Admissible p.scenes :=
  ⟨h.nodup_names, fun s hs ↦ (h.scenes s hs).start_unique, h.nodup_uids⟩

theorem WellFormed.map_repair (h : p.WellFormed) : p.scenes.map (·.repair.1) = p.scenes := by
  have hmap : p.scenes.map (·.repair.1) = p.scenes.map id := by
    refine List.map_congr_left ?_
    intro s hs
    rw [(h.scenes s hs).repair_eq]
    rfl
  rw [hmap, List.map_id]

theorem WellFormed.droppedIn (h : p.WellFormed) : ProjectFile.droppedIn p.scenes = [] := by
  rw [ProjectFile.droppedIn, List.flatMap_eq_nil_iff]
  intro s hs
  rw [(h.scenes s hs).repair_eq]
  rfl

/-- A well-formed project is loaded from its text. -/
theorem ofText_toText_of_wellFormed (h : p.WellFormed) : ofText p.toText = .ok (p, ⟨[]⟩) := by
  obtain ⟨pool, hcheck⟩ := ProjectFile.exists_checkScenes_iff.mpr h.admissible
  have hpool : pool = p.pool := by
    refine UidPool.eq_of_mem_iff fun u ↦ ?_
    rw [(ProjectFile.of_checkScenes hcheck).mem_pool, h.mem_pool, uids]
    simp
  have hload : ofText p.toText = p.toFile.load := by
    rw [ofText, toText, ProjectFile.decode_pretty]
    rfl
  have hproject : p.toFile.project p.pool = p := by
    rw [ProjectFile.project, toFile, h.map_repair]
  rw [hload, ProjectFile.load_of_version_eq rfl]
  show (ProjectFile.checkScenes [] .empty p.scenes >>= _) = _
  rw [hcheck, hpool]
  show Except.ok (p.toFile.project p.pool, LoadReport.mk (ProjectFile.droppedIn p.scenes)) = _
  rw [hproject, h.droppedIn]

/-- Saving and loading changes nothing, and there is nothing to report: not in a well-formed project, and
not in one that has been loaded, from whatever text. -/
theorem ofText_toText :
    (∀ p : Project, p.WellFormed → ofText p.toText = .ok (p, ⟨[]⟩)) ∧
      ∀ text p r, ofText text = .ok (p, r) → ofText p.toText = .ok (p, ⟨[]⟩) :=
  ⟨fun _ h ↦ ofText_toText_of_wellFormed h,
    fun _ _ _ h ↦ ofText_toText_of_wellFormed (wellFormed_of_ofText h)⟩

/-- Bubbles of every kind with every exit, anchors on every side, an option that leads nowhere, variables of the
whole story and of one scene, and orders, ids and uids at the ends of their ranges. Bubbles and connections stand
in no order. -/
def almanac : Project where
  title := "Almanac of \"Été\""
  author := "\t≠ nobody"
  scenes :=
    [{ name := "startup"
       bubbles :=
         [⟨⟨3⟩, "first leaf", 9223372036854775807, false, .story "Spring.\n\nRain \\ sun."⟩,
           ⟨⟨0⟩, "", -9223372036854775808, true, .start⟩, ⟨⟨4⟩, "", 2, false, .condition "rain > 3"⟩,
           ⟨⟨7⟩, "", -1, true, .choice [⟨⟨9⟩, "Sow"⟩, ⟨⟨2⟩, ""⟩, ⟨⟨8⟩, "Wait"⟩]⟩,
           ⟨⟨11⟩, "frost", 0, false, .action "*set rain 0"⟩]
       connections :=
         [⟨⟨4294967295⟩, ⟨⟨0⟩, .next⟩, ⟨3⟩, .south, .north⟩, ⟨⟨6⟩, ⟨⟨4⟩, .whenFalse⟩, ⟨3⟩, .west, .west⟩,
           ⟨⟨0⟩, ⟨⟨3⟩, .next⟩, ⟨7⟩, .east, .south⟩, ⟨⟨2⟩, ⟨⟨4⟩, .whenTrue⟩, ⟨11⟩, .south, .east⟩,
           ⟨⟨1⟩, ⟨⟨9⟩, .next⟩, ⟨4⟩, .north, .north⟩, ⟨⟨5⟩, ⟨⟨8⟩, .next⟩, ⟨7⟩, .west, .north⟩] },
      { name := "night sky"
        bubbles := [⟨⟨4294967295⟩, "", 0, false, .start⟩, ⟨⟨1⟩, "★", 1, false, .story ""⟩]
        connections := [⟨⟨0⟩, ⟨⟨4294967295⟩, .next⟩, ⟨1⟩, .south, .north⟩] }]
  vars := [⟨"rain", "5", none⟩, ⟨"stars", "\"none\"", some "night sky"⟩, ⟨"", "true", none⟩]
  pool := ⟨[⟨0⟩, ⟨1⟩, ⟨2⟩, ⟨3⟩, ⟨4⟩, ⟨7⟩, ⟨8⟩, ⟨9⟩, ⟨11⟩, ⟨4294967295⟩], by decide⟩

theorem wellFormed_almanac : almanac.WellFormed where
  nodup_names := by decide
  scenes := by decide
  nodup_uids := by decide
  mem_pool u := (show almanac.pool.uids.Perm almanac.uids by decide).mem_iff

/-- All of it comes back. -/
theorem ofText_toText_almanac :
    almanac.WellFormed ∧ ofText almanac.toText = .ok (almanac, ⟨[]⟩) ∧
      ∀ p r, ofText almanac.toText = .ok (p, r) → ofText p.toText = .ok (p, ⟨[]⟩) :=
  ⟨wellFormed_almanac, ofText_toText.1 _ wellFormed_almanac, ofText_toText.2 _⟩

end Project

end StoryGraph
