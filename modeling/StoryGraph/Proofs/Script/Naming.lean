import Mathlib.Data.List.Perm.Subperm
import StoryGraph.Proofs.Script.Names

/-!
# What labels are called

A label is called by what its bubble is called by, and after that comes the uid of the bubble, as often
as it takes for the name to be free. How often that is can be said without the search for it: it is the
least number of copies with which the name is not taken, and there are not more copies than names taken.
A label that several places of the sequence would have comes with one copy at least.
-/

namespace StoryGraph

namespace Labelling

/-- Copies of a uid, each behind an underscore. -/
def uidCopies (uid : Uid) : Nat → String
  | 0 => ""
  | n + 1 => "_" ++ toString uid ++ uidCopies uid n

@[simp] theorem append_uidCopies_zero (name : String) (uid : Uid) : name ++ uidCopies uid 0 = name :=
  String.append_empty

theorem uidCopies_add (uid : Uid) (m n : Nat) :
    uidCopies uid m ++ uidCopies uid n = uidCopies uid (m + n) := by
  induction m with
  | zero => rw [Nat.zero_add, uidCopies, String.empty_append]
  | succ m ih => rw [Nat.succ_add, uidCopies, uidCopies, String.append_assoc, ih]

theorem suffixed_append_uidCopies (name : String) (uid : Uid) (n : Nat) :
    suffixed name uid ++ uidCopies uid n = name ++ uidCopies uid (n + 1) := by
  simp only [suffixed, uidCopies, String.append_assoc]

theorem length_uidCopies_lt {m n : Nat} (h : m < n) (uid : Uid) :
    (uidCopies uid m).length < (uidCopies uid n).length := by
  have hlast (n : Nat) : (uidCopies uid n).length < (uidCopies uid (n + 1)).length := by
    have hmark : "_".length = 1 := rfl
    simp only [uidCopies, String.length_append, hmark]
    omega
  induction h with
  | refl => exact hlast m
  | step _ ih => exact Nat.lt_trans ih (hlast _)

/-- With different numbers of copies a name becomes different names. -/
theorem append_uidCopies_injective (name : String) (uid : Uid) :
    Function.Injective (name ++ uidCopies uid ·) := by
  intro m n heq
  have hlength : (uidCopies uid m).length = (uidCopies uid n).length := by
    have := congrArg String.length heq
    simpa only [String.length_append, Nat.add_left_cancel_iff] using this
  rcases Nat.lt_trichotomy m n with hlt | rfl | hlt
  · exact absurd hlength (Nat.ne_of_lt (length_uidCopies_lt hlt uid))
  · rfl
  · exact absurd hlength (Nat.ne_of_gt (length_uidCopies_lt hlt uid))

/-! ## The search for a free name -/

/-- The search stops at the first free name. -/
theorem exists_freeName_eq (taken : List String) (uid : Uid) (name : String) :
    ∃ n, freeName taken uid name = name ++ uidCopies uid n ∧ name ++ uidCopies uid n ∉ taken ∧
      ∀ k < n, name ++ uidCopies uid k ∈ taken := by
  induction name using freeName.induct taken uid with
  | case1 name hmem ih =>
      obtain ⟨n, heq, hfree, htaken⟩ := ih
      rw [suffixed_append_uidCopies] at heq hfree
      refine ⟨n + 1, ?_, hfree, ?_⟩
      · rw [freeName, dif_pos hmem]
        exact heq
      · intro k hk
        cases k with
        | zero => rwa [append_uidCopies_zero]
        | succ k =>
            rw [← suffixed_append_uidCopies]
            exact htaken k (Nat.lt_of_succ_lt_succ hk)
  | case2 name hfree =>
      refine ⟨0, ?_, ?_, by simp⟩
      · rw [freeName, dif_neg hfree, append_uidCopies_zero]
      · rwa [append_uidCopies_zero]

/-- It passes different names that are taken, so that it stops behind as many as there are. -/
theorem le_length_of_taken {taken : List String} {uid : Uid} {name : String} {n : Nat}
    (h : ∀ k < n, name ++ uidCopies uid k ∈ taken) : n ≤ taken.length := by
  let passed := (List.range n).map (name ++ uidCopies uid ·)
  have hnodup : passed.Nodup := List.nodup_range.map (append_uidCopies_injective name uid)
  have hsub : passed ⊆ taken := by
    intro t ht
    obtain ⟨k, hk, rfl⟩ := List.mem_map.mp ht
    exact h k (List.mem_range.mp hk)
  have hle := (List.subperm_of_subset hnodup hsub).length_le
  rwa [List.length_map, List.length_range] at hle

/-! ## Names as they are given -/

variable {l : Labelling} {places : List Uid} {u : Uid}

/-- A name is given by a search, or was given before. -/
theorem mem_nameAll {named : List (Uid × String)} {us : List Uid} {entry : Uid × String}
    (h : entry ∈ l.nameAll places named us) :
    entry ∈ named ∨ ∃ taken, entry.2 = freeName taken entry.1 (l.firstName places entry.1) := by
  induction us generalizing named with
  | nil => exact .inl h
  | cons u us ih =>
      rcases ih h with hnamed | hgiven
      · rcases List.mem_cons.mp hnamed with rfl | hnamed
        · exact .inr ⟨_, rfl⟩
        · exact .inl hnamed
      · exact .inr hgiven

/-- The first name that is tried has a copy of the uid exactly if the label is shared. -/
theorem firstName_eq (l : Labelling) (places : List Uid) (u : Uid) :
    l.firstName places u = l.baseName u ++ uidCopies u (if l.isShared places u then 1 else 0) := by
  unfold firstName
  by_cases hshared : l.isShared places u
  · have hlabel : l.userLabel u ≠ "" := by
      simp only [isShared, ne_eq, Bool.and_eq_true, decide_eq_true_eq] at hshared
      exact hshared.1
    rw [if_pos hshared, if_pos hshared, ← suffixed_append_uidCopies, append_uidCopies_zero, baseName,
      if_neg hlabel]
  · rw [if_neg hshared, if_neg hshared, append_uidCopies_zero]

/-! ## Labels of bubbles -/

/-- A label with underscores for its spaces. -/
def underscored (label : String) : String := label.map fun c ↦ if c = ' ' then '_' else c

theorem userLabel_of_bubble? {b : Bubble} (hb : l.scene.bubble? u = some b) :
    l.userLabel u = underscored b.label := by
  rw [userLabel, hb]
  show String.ofList (b.label.toList.map fun c ↦ if c = ' ' then '_' else c) = _
  rw [← String.toList_map, String.ofList_toList]
  rfl

theorem baseName_of_bubble? {b : Bubble} (hb : l.scene.bubble? u = some b) :
    l.baseName u = if b.label = "" then "bubble_" ++ toString u else underscored b.label := by
  have hempty : underscored b.label = "" ↔ b.label = "" := String.map_eq_empty
  rw [baseName, userLabel_of_bubble? hb]
  simp only [hempty]

theorem exists_bubble_of_needsLabel (h : l.needsLabel u) : ∃ b, l.scene.bubble? u = some b := by
  unfold needsLabel at h
  split at h
  · contradiction
  · exact ⟨_, ‹_›⟩

/-- `l.SharesLabel u`: the author wrote a label at `u`, and another place of the sequence that needs one has the
same, with underscores for spaces. The other place may be one of `u` again. -/
def SharesLabel (l : Labelling) (u : Uid) : Prop :=
  ∃ (i j : Nat) (v : Uid) (b c : Bubble),
    i ≠ j ∧ l.sequence[i]? = some u ∧ l.sequence[j]? = some v ∧ l.needsLabel v ∧
      l.scene.bubble? u = some b ∧ l.scene.bubble? v = some c ∧ b.label ≠ "" ∧
      underscored c.label = underscored b.label

/-- What two places of a list pass is counted twice. -/
theorem one_lt_countP {α : Type} {q : α → Bool} {xs : List α} {i j : Nat} {x y : α} (hne : i ≠ j)
    (hx : xs[i]? = some x) (hy : xs[j]? = some y) (hqx : q x) (hqy : q y) : 1 < xs.countP q := by
  wlog hlt : i < j generalizing i j x y with hswap
  · exact hswap hne.symm hy hx hqy hqx (by omega)
  have hfront : 0 < (xs.take j).countP q :=
    List.countP_pos_iff.mpr ⟨x, List.mem_of_getElem? ((List.getElem?_take_of_lt hlt).trans hx), hqx⟩
  have hback : 0 < (xs.drop j).countP q := by
    refine List.countP_pos_iff.mpr ⟨y, List.mem_of_getElem? (i := 0) ?_, hqy⟩
    rwa [List.getElem?_drop]
  have hcount : xs.countP q = (xs.take j).countP q + (xs.drop j).countP q := by
    rw [← List.countP_append, List.take_append_drop]
  omega

theorem SharesLabel.isShared (h : l.SharesLabel u) (hlabel : l.needsLabel u) :
    l.isShared l.labelled u := by
  obtain ⟨i, j, v, b, c, hij, hi, hj, hlabel', hb, hc, hne, hsame⟩ := h
  have hne : l.userLabel u ≠ "" := by
    rw [userLabel_of_bubble? hb]
    exact mt String.map_eq_empty.mp hne
  have heq : l.userLabel v = l.userLabel u := by
    rw [userLabel_of_bubble? hb, userLabel_of_bubble? hc, hsame]
  have hcount := one_lt_countP (q := fun v ↦ l.userLabel v = l.userLabel u && l.needsLabel v) hij hi hj
    (by simpa using hlabel) (by simpa using ⟨heq, hlabel'⟩)
  rw [Labelling.isShared, labelled, List.countP_filter]
  simpa using ⟨hne, hcount⟩

end Labelling

/-! ## Names of a policy -/

namespace LabelPolicy

open Labelling

/-- Force groups of bubbles to have labels, one group after the other. -/
def forceAll (p : LabelPolicy) (groups : List (List Uid)) : LabelPolicy :=
  groups.foldl (fun p group ↦ (p.force group).2) p

/-- To force labels leaves the scene and the sequence of a policy. -/
theorem of_force (p : LabelPolicy) (group : List Uid) :
    (p.force group).2.scene = p.scene ∧ (p.force group).2.sequence = p.sequence := by
  unfold force
  split <;> exact ⟨rfl, rfl⟩

theorem of_forceAll (p : LabelPolicy) (groups : List (List Uid)) :
    (p.forceAll groups).scene = p.scene ∧ (p.forceAll groups).sequence = p.sequence := by
  induction groups generalizing p with
  | nil => exact ⟨rfl, rfl⟩
  | cons group groups ih =>
      obtain ⟨hscene, hsequence⟩ := ih (p.force group).2
      obtain ⟨hscene', hsequence'⟩ := p.of_force group
      exact ⟨hscene.trans hscene', hsequence.trans hsequence'⟩

/-- `p.WellNamed`: the labels of a policy have different names of the right shape. -/
structure WellNamed (p : LabelPolicy) : Prop where
  /-- Two uids that need labels are called differently. -/
  name_ne : ∀ u ∈ p.sequence, ∀ v ∈ p.sequence, p.needsLabel u → p.needsLabel v → u ≠ v →
    p.labelName u ≠ p.labelName v
  /-- A uid is called by the label of its bubble, with underscores for spaces, or by `bubble_` and itself where
  that is empty, with copies of itself after that. There is one copy at least where the label is shared. -/
  shape : ∀ u ∈ p.sequence, p.needsLabel u → ∃ b n, p.scene.bubble? u = some b ∧
    p.labelName u = (if b.label = "" then "bubble_" ++ toString u else underscored b.label) ++ uidCopies u n ∧
      (p.SharesLabel u → 0 < n)

/-- A name that is given is what nothing stands against, with copies of the uid after it. -/
theorem exists_eq_of_mem_names {p : LabelPolicy} {u : Uid} {name : String} (h : (u, name) ∈ p.names) :
    ∃ n, name = p.baseName u ++ uidCopies u ((if p.isShared p.labelled u then 1 else 0) + n) := by
  rw [p.names_eq] at h
  obtain ⟨taken, hgiven⟩ := (mem_nameAll h).resolve_left List.not_mem_nil
  have hgiven : name = freeName taken u (p.firstName p.labelled u) := hgiven
  obtain ⟨n, hfree, -⟩ := exists_freeName_eq taken u (p.firstName p.labelled u)
  refine ⟨n, ?_⟩
  rw [hgiven, hfree, firstName_eq, String.append_assoc, uidCopies_add]

theorem exists_labelName_eq (p : LabelPolicy) {u : Uid} (hu : u ∈ p.sequence) (hlabel : p.needsLabel u) :
    ∃ n, p.labelName u = p.baseName u ++ uidCopies u n ∧ (p.SharesLabel u → 0 < n) := by
  obtain ⟨n, hname⟩ := exists_eq_of_mem_names (labelName_mem_names (mem_labelled.mpr ⟨hu, hlabel⟩))
  refine ⟨_, hname, ?_⟩
  intro hshares
  rw [if_pos (hshares.isShared hlabel)]
  omega

/-- That is so of any uid, whether it is named or not. -/
theorem exists_labelName_eq_append (p : LabelPolicy) (u : Uid) :
    ∃ n, p.labelName u = p.baseName u ++ uidCopies u n := by
  cases hfound : p.names.lookup u with
  | none =>
      refine ⟨0, ?_⟩
      rw [labelName, hfound, append_uidCopies_zero, Option.getD_none]
  | some name =>
      obtain ⟨n, hname⟩ := exists_eq_of_mem_names (labelName_mem_names_of_lookup hfound)
      exact ⟨_, hname⟩

theorem wellNamed (p : LabelPolicy) : p.WellNamed where
  name_ne _ hu _ hv hlabel hlabel' hne heq :=
    hne (eq_of_labelName_eq (mem_labelled.mpr ⟨hu, hlabel⟩) (mem_labelled.mpr ⟨hv, hlabel'⟩) heq)
  shape u hu hlabel := by
    obtain ⟨b, hb⟩ := exists_bubble_of_needsLabel hlabel
    obtain ⟨n, hname, hshared⟩ := p.exists_labelName_eq hu hlabel
    exact ⟨b, n, hb, baseName_of_bubble? hb ▸ hname, hshared⟩

/-- Whatever labels have been forced along whatever sequence, labels have different names of the right
shape. The search for a name ends, whatever names are taken: it stops at the least number of copies with
which the name is free, and there are not more of them than names taken. -/
theorem wellNamed_forceAll (s : Scene) (sequence : List Uid) (groups : List (List Uid)) :
    (((create s sequence).forceAll groups).scene = s ∧
      ((create s sequence).forceAll groups).sequence = sequence ∧
      ((create s sequence).forceAll groups).WellNamed) ∧
    ∀ taken uid name, ∃ n ≤ taken.length, freeName taken uid name = name ++ uidCopies uid n ∧
      name ++ uidCopies uid n ∉ taken ∧ ∀ k < n, name ++ uidCopies uid k ∈ taken := by
  obtain ⟨hscene, hsequence⟩ := (create s sequence).of_forceAll groups
  refine ⟨⟨hscene, hsequence, wellNamed _⟩, ?_⟩
  intro taken uid name
  obtain ⟨n, heq, hfree, htaken⟩ := exists_freeName_eq taken uid name
  exact ⟨n, le_length_of_taken htaken, heq, hfree, htaken⟩

end LabelPolicy

/-- Three gates, the last one labelled like what the second one is called. -/
def Scene.threeGates : Scene where
  name := "gates"
  bubbles :=
    [⟨⟨1⟩, "gate", 0, true, .story ""⟩, ⟨⟨2⟩, "gate", 0, true, .story ""⟩,
      ⟨⟨3⟩, "gate 2", 0, true, .story ""⟩]
  connections := []

example : (LabelPolicy.create Scene.threeGates [⟨1⟩, ⟨2⟩, ⟨3⟩]).names =
    [(⟨3⟩, "gate_2_3"), (⟨2⟩, "gate_2"), (⟨1⟩, "gate_1")] := by decide +kernel

end StoryGraph
