import StoryGraph.Proofs.Scene.Sequence
import StoryGraph.Proofs.Script.Content
import StoryGraph.Proofs.Script.Names

/-!
# The pass that emission ends with

Passes are repeated until none leaves a bubble stranded that has no label yet. A stranded bubble has no
label, and a forced one does, so in the last pass nothing is stranded at all. `FinalPass` holds what is
known of that pass; what a script looks like follows from it.
-/

namespace StoryGraph

/-- `FinalPass p code emitted`: emission of a well-formed scene ended with the policy `p`, in a pass that
wrote `code`, emitted `emitted` and left nothing stranded. -/
structure FinalPass (p : LabelPolicy) (code : List Item) (emitted : List Uid) : Prop where
  wellFormed : p.scene.WellFormed
  sequence : p.sequence = p.scene.sequence
  /-- A label is forced only where the link of an outlet ends. -/
  forced : ∀ u ∈ p.forced, p.scene.EndsOutlet u
  emits : Emits p ⟨[], []⟩ (p.sequence.map (.bubble 0)) code ⟨emitted, []⟩

namespace LabelPolicy

variable {p : LabelPolicy}

theorem needsLabel_of_mem_forced {u : Uid} (h : u ∈ p.forced) {b : Bubble}
    (hb : p.scene.bubble? u = some b) : p.needsLabel u := by
  simp [Labelling.needsLabel, hb, h]

theorem needsLabel_of_two_incoming {u : Uid} {b : Bubble} (hb : p.scene.bubble? u = some b)
    {c c' : Connection} (hc : c ∈ p.scene.incoming u) (hc' : c' ∈ p.scene.incoming u)
    (hne : c ≠ c') : p.needsLabel u := by
  have htwo : 1 < (p.scene.incoming u).length := by
    by_contra hle
    exact hne (eq_of_mem_of_length_le_one (Nat.le_of_not_lt hle) hc hc')
  simp [Labelling.needsLabel, hb, htwo]

/-- What a pass leaves newly stranded is forced in the next one. -/
theorem force_newlyStranded {progress : Progress} (h : p.newlyStranded progress ≠ []) :
    (p.force (p.newlyStranded progress)).2 =
      ofLabelling { p.toLabelling with forced := p.newlyStranded progress ++ p.forced } := by
  have hfilter : (p.newlyStranded progress).filter (· ∉ p.forced) = p.newlyStranded progress := by
    apply List.filter_eq_self.mpr
    intro u hu
    simp only [newlyStranded, List.mem_filter, decide_eq_true_eq] at hu
    simpa using hu.2.2
  rw [force_of_ne_nil (by rwa [hfilter]), hfilter]

theorem emits_of_pass {limit : Nat} {code : List Item} {progress : Progress}
    (h : p.pass limit = .ok (code, progress)) :
    Emits p ⟨[], []⟩ (p.sequence.map (.bubble 0)) code progress := Emits.of_emitAll h

/-- Labels are forced only where a pass leaves a bubble stranded, and the last pass leaves nothing newly
stranded. -/
theorem exists_last_pass_of {P : Uid → Prop} {limit : Nat} {code : List Item} {q : LabelPolicy}
    (hpass : ∀ r : LabelPolicy, r.scene = p.scene → r.sequence = p.sequence → (∀ u ∈ r.forced, P u) →
      ∀ code progress, r.pass limit = .ok (code, progress) → ∀ u ∈ progress.stranded, P u)
    (hforced : ∀ u ∈ p.forced, P u) (h : p.emit limit = .ok (code, q)) :
    q.scene = p.scene ∧ q.sequence = p.sequence ∧ (∀ u ∈ q.forced, P u) ∧
      ∃ progress, q.pass limit = .ok (code, progress) ∧ q.newlyStranded progress = [] := by
  induction p using emit.induct limit with
  | case1 p e herror =>
      rw [emit, herror] at h
      contradiction
  | case2 p code' progress hok hnone =>
      rw [emit, hok] at h
      simp only [hnone, dif_pos] at h
      obtain ⟨rfl, rfl⟩ := Prod.mk.inj (Except.ok.inj h)
      exact ⟨rfl, rfl, hforced, progress, hok, hnone⟩
  | case3 p code' progress hok hsome ih =>
      rw [emit, hok] at h
      simp only [hsome, dif_neg, not_false_eq_true] at h
      rw [force_newlyStranded hsome] at h ih
      refine ih hpass ?_ h
      intro u hu
      rcases List.mem_append.mp hu with hu | hu
      · simp only [newlyStranded, List.mem_filter, decide_eq_true_eq] at hu
        exact hpass p rfl rfl hforced code' progress hok u hu.2.1
      · exact hforced u hu

/-- What a pass leaves stranded are bubbles where the link of an outlet ends. -/
theorem endsOutlet_of_pass {limit : Nat} {code : List Item} {progress : Progress}
    (h : p.pass limit = .ok (code, progress)) {u : Uid} (hu : u ∈ progress.stranded) :
    p.scene.EndsOutlet u := by
  rcases (emits_of_pass h).of_mem_stranded (sourced_roots _ _) hu with hnil | ⟨-, hends⟩
  · simp at hnil
  · exact hends

/-- Every pass forces labels only where the link of an outlet ends, and the last one leaves nothing
newly stranded. -/
theorem exists_last_pass {limit : Nat} {code : List Item} {q : LabelPolicy}
    (hforced : ∀ u ∈ p.forced, p.scene.EndsOutlet u) (h : p.emit limit = .ok (code, q)) :
    q.scene = p.scene ∧ q.sequence = p.sequence ∧ (∀ u ∈ q.forced, q.scene.EndsOutlet u) ∧
      ∃ progress, q.pass limit = .ok (code, progress) ∧ q.newlyStranded progress = [] := by
  have hpass : ∀ r : LabelPolicy, r.scene = p.scene → r.sequence = p.sequence →
      (∀ u ∈ r.forced, p.scene.EndsOutlet u) → ∀ code progress, r.pass limit = .ok (code, progress) →
        ∀ u ∈ progress.stranded, p.scene.EndsOutlet u :=
    fun r hscene _ _ _ _ hok _ hu ↦ hscene ▸ endsOutlet_of_pass hok hu
  obtain ⟨hscene, hsequence, hforced', hlast⟩ := exists_last_pass_of hpass hforced h
  exact ⟨hscene, hsequence, hscene ▸ hforced', hlast⟩

end LabelPolicy

/-- Emission of a well-formed scene ends with a pass that leaves nothing stranded. -/
theorem Scene.exists_finalPass {s : Scene} (hs : s.WellFormed) {limit : Nat} {code : List Item}
    {p : LabelPolicy} (h : s.emit s.sequence limit = .ok (code, p)) :
    p.scene = s ∧ ∃ emitted, FinalPass p code emitted := by
  obtain ⟨rfl, hsequence, hforced, progress, hpass, hnone⟩ :=
    LabelPolicy.exists_last_pass (by simp [LabelPolicy.create, LabelPolicy.ofLabelling]) h
  refine ⟨rfl, progress.emitted, hs, hsequence, hforced, ?_⟩
  have hemits := LabelPolicy.emits_of_pass hpass
  have hstranded : progress.stranded = [] := by
    apply List.eq_nil_iff_forall_not_mem.mpr
    intro u hu
    rcases hemits.of_mem_stranded (sourced_roots _ _) hu with hnil | ⟨hlabel, c, hc, rfl, -⟩
    · simp at hnil
    -- a stranded bubble that is not newly so has been forced, and then it has a label
    · have hmem : c.target ∈ p.forced := by
        by_contra hfree
        have hnew : c.target ∈ p.newlyStranded progress := by
          simp only [LabelPolicy.newlyStranded, List.mem_filter, decide_eq_true_eq]
          exact ⟨Scene.mem_targets.mpr ⟨c, hc, rfl⟩, hu, hfree⟩
        simp [hnone] at hnew
      obtain ⟨b, hb, -⟩ := hs.exists_target hc
      exact hlabel (LabelPolicy.needsLabel_of_mem_forced hmem hb)
  obtain ⟨emitted, stranded⟩ := progress
  obtain rfl : stranded = [] := hstranded
  exact hemits

/-- The bubble whose code an item marks the beginning of. -/
def Item.mark? : Item → Option Uid
  | .enter u => some u
  | .blank | .line _ _ => none

theorem Item.IsPlain.mark?_eq_none {level : Nat} {i : Item} (h : i.IsPlain level) : i.mark? = none := by
  cases i with
  | enter => exact absurd h id
  | blank | line => rfl

namespace FinalPass

variable {p : LabelPolicy} {code : List Item} {emitted : List Uid} (h : FinalPass p code emitted)

include h

theorem nodup_emitted : emitted.Nodup := h.emits.nodup_emitted .nil

/-- The last pass emits the bubbles of the scene. -/
theorem mem_emitted_iff {u : Uid} : u ∈ emitted ↔ ∃ b ∈ p.scene.bubbles, b.uid = u := by
  constructor
  · intro hu
    have htarget : ∀ {c}, c ∈ p.scene.connections → ∃ b ∈ p.scene.bubbles, b.uid = c.target :=
      fun hc ↦ by
        obtain ⟨b, hb, hmem, -⟩ := h.wellFormed.exists_target hc
        exact ⟨b, hmem, Scene.uid_of_bubble? hb⟩
    rcases h.emits.of_mem_emitted_roots hu with hroot | ⟨-, c, hc, rfl, -⟩ | ⟨_, -, -, -, c, hc, rfl⟩
    · rw [h.sequence] at hroot
      exact Scene.mem_sequence.mp hroot
    · exact htarget hc
    · exact htarget (Scene.mem_connections_of_link? hc)
  · intro hu
    have hroot : u ∈ p.sequence := by rwa [h.sequence, Scene.mem_sequence]
    exact h.emits.mem_emitted (List.mem_map_of_mem hroot)

theorem emitted_perm : emitted.Perm (p.scene.bubbles.map (·.uid)) := by
  rw [List.perm_ext_iff_of_nodup h.nodup_emitted h.wellFormed.nodup_bubbleUids]
  intro u
  rw [h.mem_emitted_iff, List.mem_map]

/-- The code of a scene is what its bubbles write, each once. -/
theorem content : ∃ levels : List (Nat × Uid),
    (levels.map (·.2)).Perm (p.scene.bubbles.map (·.uid)) ∧
      code.Perm (levels.flatMap fun (level, u) ↦ p.ownCode level u) := by
  obtain ⟨new, hnew, hcode⟩ := h.emits.content
  have hroots : (p.sequence.map (Part.bubble 0)).flatMap p.writing = [] := by
    simp [List.flatMap_map, LabelPolicy.writing]
  have hnew : emitted = new.map (·.2) := by simpa using hnew
  refine ⟨new, hnew ▸ h.emitted_perm, ?_⟩
  rwa [hroots, List.nil_append] at hcode

/-- What is picked from the code of a scene is picked from what its bubbles write. -/
theorem filterMap_perm {α : Type} {g : Item → Option α} {f : Uid → List α}
    (hg : ∀ level u, (p.ownCode level u).filterMap g = f u) :
    (code.filterMap g).Perm (p.scene.bubbles.flatMap fun b ↦ f b.uid) := by
  obtain ⟨levels, hlevels, hcode⟩ := h.content
  calc
    (code.filterMap g).Perm ((levels.flatMap fun (level, u) ↦ p.ownCode level u).filterMap g) :=
      hcode.filterMap g
    _ = (levels.map (·.2)).flatMap f := by
      rw [List.filterMap_flatMap, List.flatMap_map]
      exact List.flatMap_congr fun entry _ ↦ hg entry.1 entry.2
    List.Perm _ ((p.scene.bubbles.map (·.uid)).flatMap f) := hlevels.flatMap_right f
    _ = p.scene.bubbles.flatMap fun b ↦ f b.uid := List.flatMap_map ..

/-- Every bubble is marked once. -/
theorem marks_perm : (code.filterMap Item.mark?).Perm (p.scene.bubbles.map (·.uid)) := by
  have hperm := h.filterMap_perm
    (LabelPolicy.filterMap_ownCode Item.IsPlain.mark?_eq_none (fun _ _ ↦ rfl) p)
  refine hperm.trans (List.Perm.of_eq ?_)
  rw [List.map_eq_flatMap]
  refine List.flatMap_congr ?_
  intro b hb
  have hsome : (p.scene.bubble? b.uid).isSome := by rw [h.wellFormed.bubble?_uid hb]; rfl
  rw [if_pos hsome, LabelPolicy.heading]
  split <;> rfl

theorem mem_of_bubble {b : Bubble} (hb : b ∈ p.scene.bubbles) : .enter b.uid ∈ code := by
  obtain ⟨i, hi, hmark⟩ := List.mem_filterMap.mp (h.marks_perm.mem_iff.mpr (List.mem_map_of_mem hb))
  cases i with
  | blank | line => simp [Item.mark?] at hmark
  | enter u =>
      obtain rfl := Option.some.inj hmark
      exact hi

theorem mem_labelled {b : Bubble} (hb : b ∈ p.scene.bubbles) (hlabel : p.needsLabel b.uid) :
    b.uid ∈ p.labelled := by
  refine LabelPolicy.mem_labelled.mpr ⟨?_, hlabel⟩
  rw [h.sequence]
  exact Scene.mem_sequence.mpr ⟨b, hb, rfl⟩

end FinalPass

end StoryGraph
