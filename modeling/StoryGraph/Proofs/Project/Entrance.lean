import StoryGraph.Proofs.Project.Compile
import StoryGraph.Proofs.Project.RoundTrip
import StoryGraph.Proofs.Script.Entrance

/-!
# Where a compiled scene is entered

A scene that has been loaded and compiled is entered at the bubble that comes first in its emission
sequence, or by the link of its start if that is the start. So it is entered where its graph is exactly if
the start, or the bubble that the start leads to, comes first. Orders decide which bubble does, and they
are not all the compiler's: a bubble that is locked or out of reach keeps its own.
-/

namespace StoryGraph

/-- Ordering a scene does not change where it is entered. -/
theorem Scene.entrance_of_computeOrder {s s' : Scene} (hs : s.WellFormed) {count : Nat}
    (h : s.computeOrder = .ok (count, s')) : s'.entrance = s.entrance := by
  obtain ⟨-, hconnections, hshape⟩ := of_computeOrder h
  obtain ⟨start, hstart, hmem, hisStart⟩ := hs.exists_start
  obtain ⟨start', hmem', heq⟩ := exists_of_shape hshape hmem
  have hstart' : s'.start? = some start' :=
    (hs.computeOrder h).start?_eq_some_iff.mpr
      ⟨hmem', (Bubble.isStart_eq_of_shape heq).trans hisStart⟩
  have hlink : s'.link? ⟨start'.uid, .next⟩ = s.link? ⟨start.uid, .next⟩ := by
    rw [link?, hconnections, Bubble.uid_eq_of_shape heq, link?]
  simp only [entrance, hstart, hstart', hlink]

namespace Project

variable {p p' : Project} {name : String} {options : Options} {script : Script}

/-- A scene that compiles has been ordered, and stays so in the project. -/
theorem of_compileScene (h : p.compileScene name options = (.ok script, p')) :
    ∃ s count s' policy, p.scene? name = some s ∧ s.computeOrder = .ok (count, s') ∧
      p'.scene? name = some s' ∧
      s'.emit s'.sequence options.maxDepth.toNat = .ok (script.code, policy) := by
  obtain ⟨s, count, s', code, policy, hs, hcount, rfl, hemit, rfl⟩ := compileScene_eq_ok_iff.mp h
  exact ⟨s, count, s', policy, hs, hcount, scene?_updateScene hs (name_of_computeOrder hs hcount), hemit⟩

theorem WellFormed.of_scene? (h : p.WellFormed) {s : Scene} (hs : p.scene? name = some s) :
    s.WellFormed := h.scenes s (List.mem_of_find?_eq_some hs)

/-- A compiled scene is entered by the link of its start if the start comes first, which it does unless
a bubble has a lower order, and at the bubble that comes first otherwise. -/
theorem entersAt_of_compileScene {text : String} {r : LoadReport} (hload : ofText text = .ok (p, r))
    (hcompile : p.compileScene name options = (.ok script, p')) :
    ∃ s s' start first others, p.scene? name = some s ∧ p'.scene? name = some s' ∧
      s'.start? = some start ∧ s'.sequence = first :: others ∧
      EntersAt script.code start.uid (if first = start.uid then s.entrance else .bubble first) ∧
      (EntersAt script.code start.uid s.entrance ↔
        first = start.uid ∨ s.entrance = .bubble first) ∧
      (first = start.uid ↔ ∀ b ∈ s'.bubbles, start.order ≤ b.order) := by
  obtain ⟨s, count, s', policy, hs, hcount, hs', hemit⟩ := of_compileScene hcompile
  have hwf := (wellFormed_of_ofText hload).of_scene? hs
  have hwf' := hwf.computeOrder hcount
  obtain ⟨start, hstart, hmem, -⟩ := hwf'.exists_start
  obtain ⟨rfl, emitted, hpass⟩ := Scene.exists_finalPass hwf' hemit
  have hmemSequence : start.uid ∈ policy.scene.sequence := Scene.mem_sequence.mpr ⟨start, hmem, rfl⟩
  obtain ⟨first, others, hsequence⟩ := List.exists_cons_of_ne_nil (List.ne_nil_of_mem hmemSequence)
  have henters : EntersAt script.code start.uid
      (if first = start.uid then s.entrance else .bubble first) := by
    split
    · rename_i hfirst
      rw [← Scene.entrance_of_computeOrder hwf hcount]
      exact hpass.entersAt_of_eq_start hsequence hstart hfirst
    · rename_i hfirst
      exact hpass.entersAt_of_ne_start hsequence hfirst
  refine ⟨s, _, start, first, others, hs, hs', hstart, hsequence, henters, ?_,
    hwf'.first_eq_start_iff hstart hsequence⟩
  constructor
  · intro hgraph
    by_cases hfirst : first = start.uid
    · exact .inl hfirst
    · rw [if_neg hfirst] at henters
      exact .inr (hgraph.unique henters)
  · rintro (hfirst | hfirst)
    · rwa [if_pos hfirst] at henters
    · rw [hfirst, ite_self] at henters
      rwa [hfirst]

/-- A story that the start does not lead to has a lower order than the start. -/
def strayScene : Scene where
  name := startupName
  bubbles := [.create ⟨0⟩ .start, .create ⟨1⟩ (.story "first"), ⟨⟨2⟩, "", -1, false, .story "stray"⟩]
  connections := [⟨⟨0⟩, ⟨⟨0⟩, .next⟩, ⟨1⟩, .south, .north⟩]

def strayFirst : Project where
  title := "Stray"
  author := ""
  scenes := [strayScene]
  vars := []
  pool := ⟨[⟨0⟩, ⟨1⟩, ⟨2⟩], by decide⟩

theorem wellFormed_strayFirst : strayFirst.WellFormed where
  nodup_names := by decide
  scenes := by decide
  nodup_uids := by decide
  mem_pool _ := Iff.rfl

def strayFirstCode : List Item :=
  [.enter ⟨2⟩, .line 0 (.text "stray"), .line 0 .finish, .enter ⟨0⟩, .enter ⟨1⟩,
    .line 0 (.text "first"), .line 0 .finish]

theorem compileScene_strayFirst :
    ∃ p', strayFirst.compileScene startupName default =
      (.ok ⟨strayFirst.preamble startupName, strayFirstCode⟩, p') := by
  have horder : strayScene.computeOrder = .ok (1, strayScene) := by cbv
  have hsequence : strayScene.sequence = [⟨2⟩, ⟨0⟩, ⟨1⟩] := by
    have hperm : (([⟨2⟩, ⟨0⟩, ⟨1⟩] : List Uid).filterMap strayScene.bubble?).Perm strayScene.bubbles := by decide
    exact Scene.WellFormed.sequence_eq_map (by decide) hperm (by decide)
  have hcode : (strayScene.emit strayScene.sequence 1024).map (·.1) = .ok strayFirstCode := by
    rw [hsequence]
    decide +kernel
  obtain ⟨⟨_, policy⟩, hemit, rfl⟩ := map_eq_ok.mp hcode
  exact ⟨strayFirst, compileScene_eq_ok_iff.mpr
    ⟨strayScene, 1, strayScene, _, policy, rfl, horder, rfl, hemit, rfl⟩⟩

theorem entersAt_strayFirst :
    ∃ p' s' start first others,
      strayFirst.compileScene startupName default =
        (.ok ⟨strayFirst.preamble startupName, strayFirstCode⟩, p') ∧
      p'.scene? startupName = some s' ∧ s'.start? = some start ∧ s'.sequence = first :: others ∧
      EntersAt strayFirstCode start.uid (if first = start.uid then .bubble ⟨1⟩ else .bubble first) := by
  obtain ⟨p', hcompile⟩ := compileScene_strayFirst
  have hload := ofText_toText_of_wellFormed wellFormed_strayFirst
  obtain ⟨s, s', start, first, others, hs, hs', hstart, hsequence, henters, -⟩ :=
    entersAt_of_compileScene hload hcompile
  obtain rfl := Option.some.inj hs
  exact ⟨p', s', start, first, others, hcompile, hs', hstart, hsequence, henters⟩

/-- A compiled scene is not always entered by the link of its start. -/
theorem not_forall_entersAt_entrance :
    ¬ ∀ text p r name options script p' s start, ofText text = .ok (p, r) →
      p.compileScene name options = (.ok script, p') → p.scene? name = some s →
      s.start? = some start → EntersAt script.code start.uid s.entrance := by
  intro h
  obtain ⟨p', hcompile⟩ := compileScene_strayFirst
  have hload := ofText_toText_of_wellFormed wellFormed_strayFirst
  have henters := h _ _ _ _ _ _ _ _ _ hload hcompile rfl rfl
  have hstray : Enters strayFirstCode ⟨0⟩ [] strayFirstCode (.bubble ⟨2⟩) := .meet (by decide)
  exact absurd ((henters []).unique hstray) (by decide)

end Project

end StoryGraph
