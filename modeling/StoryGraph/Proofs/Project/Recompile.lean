import StoryGraph.Proofs.Project.Progress
import StoryGraph.Proofs.Scene.Refresh

/-!
# Compiling again

Compiling a scene orders it, and a scene that is in order compiles to the same script without a change. The
other scenes are left as they are, and so are those that have been compiled before. So the project that a
compilation leaves compiles to the same scripts, and stays as it is.
-/

namespace StoryGraph.Project

variable {p p' : Project} {name : String} {options : Options} {script : Script}

/-! ## Scenes that stay as they are -/

/-- `p.Settled options name script`: a scene compiles to a script, and the project stays as it is. -/
def Settled (p : Project) (options : Options) (name : String) (script : Script) : Prop :=
  p.compileScene name options = (.ok script, p)

/-- A scene stays as it is exactly if it is in order. -/
theorem settled_iff :
    p.Settled options name script ↔
      ∃ s count code policy, p.scene? name = some s ∧ s.computeOrder = .ok (count, s) ∧
        s.emit s.sequence options.maxDepth.toNat = .ok (code, policy) ∧
        script = ⟨p.preamble name, code⟩ := by
  unfold Settled
  rw [compileScene_eq_ok_iff]
  constructor
  · rintro ⟨s, count, s', code, policy, hs, hcount, hself, hemit, hscript⟩
    have hs' := scene?_updateScene hs (name_of_computeOrder hs hcount)
    rw [← hself, hs] at hs'
    obtain rfl := Option.some.inj hs'
    exact ⟨s, count, code, policy, hs, hcount, hemit, hscript⟩
  · rintro ⟨s, count, code, policy, hs, hcount, hemit, hscript⟩
    have hself : p = p.updateScene name fun _ ↦ s := by
      unfold updateScene
      rw [updateFirst_eq_self fun x hx ↦ (Option.some.inj (hs.symm.trans hx))]
    exact ⟨s, count, s, code, policy, hs, hcount, hself, hemit, hscript⟩

/-- A scene that has been compiled is settled. -/
theorem settled_of_compileScene (hp : ∀ s ∈ p.scenes, s.WellFormed)
    (h : p.compileScene name options = (.ok script, p')) : p'.Settled options name script := by
  obtain ⟨s, count, s', code, policy, hs, hcount, rfl, hemit, hscript⟩ := compileScene_eq_ok_iff.mp h
  have hwf : s.WellFormed := hp s (List.mem_of_find?_eq_some hs)
  exact settled_iff.mpr ⟨s', count, code, policy, scene?_updateScene hs (name_of_computeOrder hs hcount),
    hwf.computeOrder_of_computeOrder hcount, hemit, hscript⟩

/-- Compiling a scene leaves settled what is settled. -/
theorem Settled.compileScene {other : String} {script' : Script} (hother : p.Settled options other script')
    (h : p.compileScene name options = (.ok script, p')) : p'.Settled options other script' := by
  by_cases hname : other = name
  · -- it is the scene that is compiled, which leaves it as it is
    subst hname
    obtain ⟨-, rfl⟩ := Prod.mk.inj (hother.symm.trans h)
    exact hother
  · obtain ⟨s, count, s', -, -, hs, hcount, rfl, -⟩ := compileScene_eq_ok_iff.mp h
    obtain ⟨t, n, code, policy, ht, hn, hemit, rfl⟩ := settled_iff.mp hother
    have hs' := name_of_computeOrder hs hcount
    refine settled_iff.mpr ⟨t, n, code, policy, ?_, hn, hemit, ?_⟩
    · rw [scene?_updateScene_of_ne hs' hname, ht]
    · rw [preamble_updateScene hs']

/-! ## All scenes -/

variable {scripts : List (String × Script)}

/-- Once scenes have been compiled they are settled, and so is what was settled before. -/
theorem settled_of_compileScenes (hp : ∀ s ∈ p.scenes, s.WellFormed) {names : List String}
    (h : p.compileScenes options names = (.ok scripts, p')) :
    (∀ entry ∈ scripts, p'.Settled options entry.1 entry.2) ∧
      ∀ name script, p.Settled options name script → p'.Settled options name script := by
  induction names generalizing p scripts with
  | nil =>
      obtain ⟨hscripts, rfl⟩ := Prod.mk.inj h
      obtain rfl := Except.ok.inj hscripts
      exact ⟨by simp, fun _ _ h ↦ h⟩
  | cons name names ih =>
      obtain ⟨script, p₁, rest, hscene, hrest, rfl⟩ := compileScenes_cons_eq_ok_iff.mp h
      obtain ⟨hsettled, hkept⟩ := ih (wellFormed_of_compileScene hp hscene) hrest
      constructor
      · refine List.forall_mem_cons.mpr ⟨?_, hsettled⟩
        exact hkept name script (settled_of_compileScene hp hscene)
      · exact fun other script' hother ↦ hkept other script' (hother.compileScene hscene)

/-- Scenes that are settled compile without a change. -/
theorem compileScenes_of_settled (h : ∀ entry ∈ scripts, p.Settled options entry.1 entry.2) :
    p.compileScenes options (scripts.map (·.1)) = (.ok scripts, p) := by
  induction scripts with
  | nil => rfl
  | cons entry scripts ih =>
      obtain ⟨hentry, hscripts⟩ := List.forall_mem_cons.mp h
      exact compileScenes_cons_eq_ok_iff.mpr ⟨entry.2, p, scripts, hentry, ih hscripts, rfl⟩

/-- A project that has been compiled compiles to the same scripts again, and stays as it is. -/
theorem compile_of_compile (hp : ∀ s ∈ p.scenes, s.WellFormed)
    (h : p.compile options = (.ok scripts, p')) : p'.compile options = (.ok scripts, p') := by
  rw [compile] at h
  have hunordered := (p.unordered_compileScenes options p.sceneNames).1
  rw [h] at hunordered
  rw [compile, sceneNames_of_unordered hunordered, ← map_fst_of_compileScenes h]
  exact compileScenes_of_settled (settled_of_compileScenes hp h).1

/-- Ordering a scene sets the orders of the start and of reachable bubbles that are not locked, and reads
none of these, so that it comes to the same a second time. And a project that has been compiled compiles to
the same scripts, and stays as it is. -/
theorem computeOrder_compile_idempotent :
    (∀ (s s' : Scene) (count : Nat), s.WellFormed → s.computeOrder = .ok (count, s') →
      s.Refreshes s' ∧ (∀ t, s.Refreshes t → t.computeOrder = .ok (count, s')) ∧
        s'.computeOrder = .ok (count, s')) ∧
    ∀ (p p' : Project) (options : Options) (scripts : List (String × Script)), p.WellFormed →
      p.compile options = (.ok scripts, p') → p'.compile options = (.ok scripts, p') := by
  constructor
  · intro s s' count hs horder
    refine ⟨hs.refreshes_of_computeOrder horder, ?_, hs.computeOrder_of_computeOrder horder⟩
    intro t ht
    rw [hs.computeOrder_eq_of_refreshes ht, horder]
  · intro p p' options scripts hp h
    exact compile_of_compile hp.scenes h

/-- A story that goes round through a condition that is locked. The orders are those of an older story. -/
def staleScene : Scene where
  name := startupName
  bubbles :=
    [⟨⟨0⟩, "", 9, false, .start⟩, ⟨⟨1⟩, "", 5, false, .story "round"⟩,
      ⟨⟨2⟩, "", 7, true, .condition "again"⟩, ⟨⟨3⟩, "", -1, false, .story "astray"⟩]
  connections :=
    [⟨⟨0⟩, ⟨⟨0⟩, .next⟩, ⟨1⟩, .south, .north⟩, ⟨⟨1⟩, ⟨⟨1⟩, .next⟩, ⟨2⟩, .south, .north⟩,
      ⟨⟨2⟩, ⟨⟨2⟩, .whenTrue⟩, ⟨1⟩, .south, .north⟩]

/-- The story in order. -/
def staleSceneInOrder : Scene := staleScene.withOrders [(⟨0⟩, 0), (⟨1⟩, 8), (⟨2⟩, 7)]

theorem computeOrder_staleScene : staleScene.computeOrder = .ok (3, staleSceneInOrder) := by cbv

def staleLoop : Project := ⟨"Loop", "", [staleScene], [], ⟨[⟨0⟩, ⟨1⟩, ⟨2⟩, ⟨3⟩], by decide⟩⟩

theorem wellFormed_staleLoop : staleLoop.WellFormed where
  nodup_names := by decide
  scenes := by decide
  nodup_uids := by decide
  mem_pool _ := Iff.rfl

/-- The first compilation sets the orders of the start and of the story in the loop, and the second
compilation sets none. -/
theorem computeOrder_compile_staleLoop :
    (∃ s', staleScene.computeOrder = .ok (3, s') ∧ s'.bubbles.map (·.order) = [0, 8, 7, -1] ∧
      staleScene.Refreshes s' ∧ s'.computeOrder = .ok (3, s')) ∧
    ∃ scripts p', staleLoop.compile default = (.ok scripts, p') ∧
      p'.compile default = (.ok scripts, p') := by
  constructor
  · obtain ⟨hrefreshes, -, hagain⟩ := computeOrder_compile_idempotent.1 _ _ _
      (wellFormed_staleLoop.scenes _ List.mem_cons_self) computeOrder_staleScene
    exact ⟨staleSceneInOrder, computeOrder_staleScene, by decide, hrefreshes, hagain⟩
  · obtain ⟨scripts, p', hcompile⟩ := wellFormed_staleLoop.exists_compile default (by decide)
    exact ⟨scripts, p', hcompile, computeOrder_compile_idempotent.2 _ _ _ _ wellFormed_staleLoop hcompile⟩

end StoryGraph.Project
