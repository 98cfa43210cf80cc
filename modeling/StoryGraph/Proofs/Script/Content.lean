import StoryGraph.Proofs.Script.Pass

/-!
# What the code of a pass consists of

However bubbles are put into each other's lines, each writes the same: its heading, the items of its own
parts, and a jump or the end of the scene behind an outlet that does not go on in line. The code of a
pass is, up to the order of its items, what the bubbles emitted on the way write.
-/

namespace StoryGraph

namespace LabelPolicy

/-- What a part writes itself, without the bubbles that it leads to. -/
def writing (p : LabelPolicy) : Part → List Item
  | .item i => [i]
  | .slot place level =>
      match p.scene.link? place with
      | none => [.line level .finish]
      | some c => if p.needsLabel c.target then [.line level (.goto (p.labelName c.target))] else []
  | .entry place level =>
      match p.scene.link? place with
      | none => [.line level .finish]
      | some _ => []
  | .bubble _ _ => []

/-- What the bubble of a uid writes itself, where its code is wanted at a level. -/
def ownCode (p : LabelPolicy) (level : Nat) (uid : Uid) : List Item :=
  match p.scene.bubble? uid with
  | none => []
  | some b => p.heading uid ++ (b.parts (p.levelOf level uid)).flatMap p.writing

theorem ownCode_of_bubble? {p : LabelPolicy} {u : Uid} {b : Bubble}
    (h : p.scene.bubble? u = some b) (level : Nat) :
    p.ownCode level u = p.heading u ++ (b.parts (p.levelOf level u)).flatMap p.writing := by
  simp only [ownCode, h]

/-- Behind its heading a bubble writes plain items and jumps. -/
theorem isPlain_or_goto_of_mem_writing {p : LabelPolicy} {b : Bubble} {level : Nat} {part : Part}
    (h : part.IsOf b level) {i : Item} (hi : i ∈ p.writing part) :
    i.IsPlain level ∨ ∃ l name, i = .line l (.goto name) := by
  cases part with
  | item j =>
      obtain rfl := List.mem_singleton.mp hi
      exact .inl h
  | bubble => exact absurd h id
  | slot place l =>
      simp only [writing] at hi
      split at hi
      · obtain rfl := List.mem_singleton.mp hi
        exact .inl h
      · split at hi
        · obtain rfl := List.mem_singleton.mp hi
          exact .inr ⟨l, _, rfl⟩
        · simp at hi
  | entry place l =>
      simp only [writing] at hi
      split at hi
      · obtain rfl := List.mem_singleton.mp hi
        exact .inl (Nat.le_of_eq h.2.2.symm)
      · simp at hi

/-- What is picked from a bubble's code, where nothing is picked behind its heading. -/
theorem filterMap_ownCode {α : Type} {pick : Item → Option α}
    (hplain : ∀ {i level}, i.IsPlain level → pick i = none)
    (hgoto : ∀ l name, pick (.line l (.goto name)) = none) (p : LabelPolicy) (level : Nat) (u : Uid) :
    (p.ownCode level u).filterMap pick =
      if (p.scene.bubble? u).isSome then (p.heading u).filterMap pick else [] := by
  cases hb : p.scene.bubble? u with
  | none => simp [ownCode, hb]
  | some b =>
      have hparts : ((b.parts (p.levelOf level u)).flatMap p.writing).filterMap pick = [] := by
        apply List.filterMap_eq_nil_iff.mpr
        intro i hi
        obtain ⟨part, hpart, hi⟩ := List.mem_flatMap.mp hi
        rcases isPlain_or_goto_of_mem_writing (isOf_of_mem_parts hpart) hi with h | ⟨l, name, rfl⟩
        · exact hplain h
        · exact hgoto l name
      rw [ownCode_of_bubble? hb, List.filterMap_append, hparts, List.append_nil]
      rfl

end LabelPolicy

/-- What a step writes is what its part writes itself, unless it is a bubble: then it is what the bubble
writes, as far as that is not left to the parts in front. -/
theorem Step.content {p : LabelPolicy} {g g₁ : Progress} {part : Part} {front : List Part}
    {items : List Item} (h : Step p g part items g₁ front) :
    ∃ new : List (Nat × Uid), g₁.emitted = new.map (·.2) ++ g.emitted ∧
      items ++ front.flatMap p.writing =
        p.writing part ++ new.flatMap fun (level, u) ↦ p.ownCode level u := by
  cases h with
  | item => exact ⟨[], rfl, rfl⟩
  | finish hlink => exact ⟨[], rfl, by simp [LabelPolicy.writing, hlink]⟩
  | jump hlink hlabel => exact ⟨[], rfl, by simp [LabelPolicy.writing, hlink, hlabel]⟩
  | strand hlink hlabel => exact ⟨[], rfl, by simp [LabelPolicy.writing, hlink, hlabel]⟩
  | inline hlink hlabel => exact ⟨[], rfl, by simp [LabelPolicy.writing, hlink, hlabel]⟩
  | entryFinish hlink => exact ⟨[], rfl, by simp [LabelPolicy.writing, hlink]⟩
  | entry hlink => exact ⟨[], rfl, by simp [LabelPolicy.writing, hlink]⟩
  | skip => exact ⟨[], rfl, rfl⟩
  | @unknown level u _ hbubble =>
      exact ⟨[(level, u)], rfl, by simp [LabelPolicy.writing, LabelPolicy.ownCode, hbubble]⟩
  | @take level u b _ hbubble =>
      refine ⟨[(level, u)], rfl, ?_⟩
      simp [LabelPolicy.writing, LabelPolicy.ownCode_of_bubble? hbubble]

/-- The code of a pass consists of what its parts write and of what the bubbles write that it adds to
those emitted. -/
theorem Emits.content {p : LabelPolicy} {g g' : Progress} {parts : List Part} {code : List Item}
    (h : Emits p g parts code g') :
    ∃ new : List (Nat × Uid), g'.emitted = new.map (·.2) ++ g.emitted ∧
      code.Perm (parts.flatMap p.writing ++ new.flatMap fun (level, u) ↦ p.ownCode level u) := by
  induction h with
  | done g => exact ⟨[], rfl, .nil⟩
  | @step g g₁ g' part front parts items code first rest ih =>
      obtain ⟨new, hnew, hitems⟩ := first.content
      obtain ⟨later, hlater, hcode⟩ := ih
      refine ⟨later ++ new, by rw [hlater, hnew, List.map_append, List.append_assoc], ?_⟩
      let own : Nat × Uid → List Item := fun (level, u) ↦ p.ownCode level u
      calc
        (items ++ code).Perm
            (items ++ ((front ++ parts).flatMap p.writing ++ later.flatMap own)) :=
          hcode.append_left items
        _ = (p.writing part ++ new.flatMap own) ++
            (parts.flatMap p.writing ++ later.flatMap own) := by
          rw [← hitems]
          simp only [List.flatMap_append, List.append_assoc]
        List.Perm _ ((part :: parts).flatMap p.writing ++ (later ++ new).flatMap own) := by
          rw [List.perm_iff_count]
          intro i
          simp only [List.flatMap_cons, List.flatMap_append, List.count_append]
          omega

end StoryGraph
