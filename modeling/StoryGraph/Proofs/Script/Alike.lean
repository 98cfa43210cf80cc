import StoryGraph.Proofs.Scene.Alike
import StoryGraph.Proofs.Script.FinalPass

/-!
# Emission does not see how a scene is written down

Emission asks a scene for bubbles, for where slots lead, and how many connections end at a bubble. Scenes
that are alike answer the same, so the same bubbles need labels, the labels are called the same, and each
pass emits the same code and leaves the same bubbles stranded. The order in which bubbles are forced to have
labels may differ, and does not matter.
-/

namespace StoryGraph

/-! ## Labels -/

namespace Labelling

variable {l m : Labelling}

/-- `l.Alike m`: labels are decided by scenes that are alike, and by the same sequence and forced bubbles. -/
structure Alike (l m : Labelling) : Prop where
  scene : l.scene.Alike m.scene
  sequence_eq : l.sequence = m.sequence
  forced : ∀ u, u ∈ l.forced ↔ u ∈ m.forced

namespace Alike

theorem comesFromFar_eq (h : l.Alike m) {c d : Connection} (hlink : c.link = d.link) :
    l.comesFromFar c = m.comesFromFar d := by
  obtain ⟨hslot, htarget⟩ := Prod.mk.inj hlink
  have hfar (source target : Uid) : l.isFarAfter source target = m.isFarAfter source target := by
    rw [isFarAfter, isFarAfter, h.sequence_eq]
  simp only [comesFromFar, Connection.source, hslot, htarget, h.scene.container?_eq, h.scene.bubble?_eq,
    hfar]

/-- Where one connection ends at most, it comes from far in both or in neither. -/
theorem any_incoming_eq (h : l.Alike m) {u : Uid} (hone : (l.scene.incoming u).length ≤ 1) :
    (l.scene.incoming u).head?.any l.comesFromFar = (m.scene.incoming u).head?.any m.comesFromFar := by
  have hlinks := h.scene.links_incoming u
  generalize l.scene.incoming u = cs at hone hlinks ⊢
  generalize m.scene.incoming u = ds at hlinks ⊢
  match cs, hone with
  | [], _ =>
      have hds : ds = [] := by simpa using hlinks.symm
      rw [hds]
      rfl
  | [c], _ =>
      obtain ⟨d, rfl, hd⟩ := List.map_eq_singleton_iff.mp (List.perm_singleton.mp hlinks.symm)
      exact h.comesFromFar_eq hd.symm

theorem needsLabel_eq (h : l.Alike m) (u : Uid) : l.needsLabel u = m.needsLabel u := by
  unfold needsLabel
  rw [h.scene.bubble?_eq]
  cases m.scene.bubble? u with
  | none => rfl
  | some b =>
      have hlength : (l.scene.incoming u).length = (m.scene.incoming u).length := by
        simpa using (h.scene.links_incoming u).length_eq
      simp only [hlength, h.forced]
      by_cases hone : 1 < (m.scene.incoming u).length
      · simp [hone]
      · rw [h.any_incoming_eq (by omega)]

theorem sameLabels (h : l.Alike m) : l.SameLabels m where
  sequence_eq := h.sequence_eq
  needsLabel_eq := h.needsLabel_eq
  userLabel_eq u := by rw [userLabel, userLabel, h.scene.bubble?_eq]

end Alike

end Labelling

/-! ## Code -/

namespace LabelPolicy

variable {p q : LabelPolicy} (h : p.toLabelling.Alike q.toLabelling)

include h

theorem labelName_eq (u : Uid) : p.labelName u = q.labelName u := labelName_eq_of_sameLabels h.sameLabels u

theorem follow_eq (inline : Nat → Uid → Emission (List Item)) (slot : Slot) (level : Nat) :
    p.follow inline slot level = q.follow inline slot level := by
  have hlinks := h.scene.rel_link? slot
  unfold follow
  generalize p.scene.link? slot = c? at hlinks ⊢
  generalize q.scene.link? slot = d? at hlinks ⊢
  cases hlinks with
  | none => rfl
  | some hcd =>
      obtain ⟨-, -, hlink⟩ := hcd
      obtain ⟨-, htarget⟩ := Prod.mk.inj hlink
      simp only [htarget, h.needsLabel_eq, labelName_eq h]

theorem options_eq (inline : Nat → Uid → Emission (List Item)) (level : Nat)
    (options : List ChoiceOption) : p.options inline level options = q.options inline level options := by
  induction options with
  | nil => rfl
  | cons option rest ih => rw [LabelPolicy.options, LabelPolicy.options, follow_eq h, ih]

theorem body_eq (inline : Nat → Uid → Emission (List Item)) (level : Nat) (u : Uid) (kind : BubbleKind) :
    p.body inline level u kind = q.body inline level u kind := by
  cases kind with
  | start =>
      have hlinks := h.scene.rel_link? ⟨u, .next⟩
      unfold body
      generalize p.scene.link? ⟨u, .next⟩ = c? at hlinks ⊢
      generalize q.scene.link? ⟨u, .next⟩ = d? at hlinks ⊢
      cases hlinks with
      | none => rfl
      | some hcd =>
          obtain ⟨-, -, hlink⟩ := hcd
          obtain ⟨-, htarget⟩ := Prod.mk.inj hlink
          simp only [htarget]
  | story text => simp only [body, follow_eq h]
  | action script => simp only [body, follow_eq h]
  | condition expression => simp only [body, follow_eq h]
  | choice options => simp only [body, options_eq h]

theorem emitBubble_eq (limit room : Nat) : p.emitBubble limit room = q.emitBubble limit room := by
  induction room with
  | zero =>
      funext level u
      rw [emitBubble, emitBubble]
  | succ room ih =>
      funext level u
      simp only [emitBubble, ih, h.scene.bubble?_eq, block, h.needsLabel_eq, labelName_eq h, body_eq h]

theorem emitAll_eq (limit : Nat) (us : List Uid) : p.emitAll limit us = q.emitAll limit us := by
  induction us with
  | nil => rfl
  | cons u us ih => rw [emitAll, emitAll, emitBubble_eq h, ih]

theorem pass_eq (limit : Nat) : p.pass limit = q.pass limit := by
  rw [pass, pass, emitAll_eq h, h.sequence_eq]

/-! ## Passes -/

theorem newlyStranded_perm (progress : Progress) :
    (p.newlyStranded progress).Perm (q.newlyStranded progress) := by
  unfold newlyStranded
  simp only [h.forced]
  exact h.scene.targets_perm.filter _

/-- Emission ends alike. -/
theorem emit_eq (limit : Nat) : (p.emit limit).map (·.1) = (q.emit limit).map (·.1) := by
  induction p using emit.induct limit generalizing q with
  | case1 p e hpass =>
      rw [emit, emit, ← pass_eq h, hpass]
  | case2 p code progress hpass hnone =>
      have hnone' : q.newlyStranded progress = [] := by
        have hperm := newlyStranded_perm h progress
        rwa [hnone, List.nil_perm] at hperm
      rw [emit, emit, ← pass_eq h, hpass]
      simp only [hnone, hnone', dif_pos]
      rfl
  | case3 p code progress hpass hsome ih =>
      have hperm := newlyStranded_perm h progress
      have hsome' : q.newlyStranded progress ≠ [] := fun hnone ↦ by
        rw [hnone, List.perm_nil] at hperm
        exact hsome hperm
      rw [emit, emit, ← pass_eq h, hpass]
      simp only [hsome, hsome', dif_neg, not_false_eq_true]
      refine ih ?_
      rw [force_newlyStranded hsome, force_newlyStranded hsome']
      refine ⟨h.scene, h.sequence_eq, fun u ↦ ?_⟩
      show u ∈ p.newlyStranded progress ++ p.forced ↔ u ∈ q.newlyStranded progress ++ q.forced
      rw [List.mem_append, List.mem_append, hperm.mem_iff, h.forced]

end LabelPolicy

/-- Scenes that are alike are emitted alike. -/
theorem Scene.Alike.emit_eq {s t : Scene} (h : s.Alike t) (limit : Nat) :
    (s.emit s.sequence limit).map (·.1) = (t.emit t.sequence limit).map (·.1) :=
  LabelPolicy.emit_eq (p := .create s s.sequence) (q := .create t t.sequence)
    ⟨h, h.sequence_eq, fun _ ↦ Iff.rfl⟩ limit

end StoryGraph
