import StoryGraph.Proofs.Scene.Lookup
import StoryGraph.Script.Label

/-!
# Labels have different names

Names are given one after the other, each one free where it is given. So no name is given twice, and two
uids of the sequence that need a label are called differently. What they are called depends on nothing but
which bubbles of the sequence need labels, and on what the author wrote on them.
-/

namespace StoryGraph

namespace Labelling

theorem freeName_not_mem (taken : List String) (uid : Uid) (name : String) :
    freeName taken uid name ∉ taken := by
  induction name using freeName.induct taken uid with
  | case1 name hmem ih =>
      rw [freeName, dif_pos hmem]
      exact ih
  | case2 name hfree =>
      rw [freeName, dif_neg hfree]
      exact hfree

variable {l : Labelling} {places : List Uid}

/-- Naming adds to the names that were given before, and repeats none. -/
theorem nodup_names_nameAll {named : List (Uid × String)} {us : List Uid}
    (h : (named.map (·.2)).Nodup) : ((l.nameAll places named us).map (·.2)).Nodup := by
  induction us generalizing named with
  | nil => exact h
  | cons u us ih =>
      apply ih
      rw [List.map_cons]
      exact List.nodup_cons.mpr ⟨freeName_not_mem _ _ _, h⟩

theorem mem_nameAll_of_mem {named : List (Uid × String)} {us : List Uid} {entry : Uid × String}
    (h : entry ∈ named) : entry ∈ l.nameAll places named us := by
  induction us generalizing named with
  | nil => exact h
  | cons u us ih => exact ih (List.mem_cons_of_mem _ h)

theorem exists_mem_nameAll {named : List (Uid × String)} {us : List Uid} {u : Uid} (h : u ∈ us) :
    ∃ name, (u, name) ∈ l.nameAll places named us := by
  induction us generalizing named with
  | nil => simp at h
  | cons v us ih =>
      rcases List.mem_cons.mp h with rfl | h
      · let name := freeName (named.map (·.2)) u (l.firstName places u)
        have hmem : (u, name) ∈ l.nameAll places ((u, name) :: named) us :=
          mem_nameAll_of_mem List.mem_cons_self
        exact ⟨name, hmem⟩
      · exact ih h

/-- Uids are named in order, one name each. -/
theorem map_fst_nameAll (named : List (Uid × String)) (us : List Uid) :
    (l.nameAll places named us).map (·.1) = us.reverse ++ named.map (·.1) := by
  induction us generalizing named with
  | nil => rfl
  | cons u us ih =>
      rw [nameAll, ih, List.map_cons, List.reverse_cons, List.append_assoc, List.singleton_append]

/-- The uids that are named are those that need a label. -/
theorem mem_map_fst_names {u : Uid} : u ∈ l.names.map (·.1) ↔ u ∈ l.sequence ∧ l.needsLabel u := by
  rw [names, map_fst_nameAll, List.map_nil, List.append_nil, List.mem_reverse, labelled, List.mem_filter]

/-! ## What names depend on -/

/-- `l.SameLabels m`: the same bubbles of the same sequence need labels, and have the same written on them. -/
structure SameLabels (l m : Labelling) : Prop where
  sequence_eq : l.sequence = m.sequence
  needsLabel_eq : ∀ u, l.needsLabel u = m.needsLabel u
  userLabel_eq : ∀ u, l.userLabel u = m.userLabel u

namespace SameLabels

variable {m : Labelling} (h : l.SameLabels m)

include h

theorem baseName_eq (u : Uid) : l.baseName u = m.baseName u := by
  rw [baseName, baseName, h.userLabel_eq]

theorem firstName_eq (places : List Uid) (u : Uid) : l.firstName places u = m.firstName places u := by
  have hshared : l.isShared places u = m.isShared places u := by
    rw [isShared, isShared, funext h.userLabel_eq]
  rw [firstName, firstName, hshared, h.userLabel_eq, h.baseName_eq]

theorem nameAll_eq (places : List Uid) (named : List (Uid × String)) (us : List Uid) :
    l.nameAll places named us = m.nameAll places named us := by
  induction us generalizing named with
  | nil => rfl
  | cons u us ih =>
      rw [nameAll, nameAll, h.firstName_eq]
      exact ih _

theorem names_eq : l.names = m.names := by
  have hlabelled : l.labelled = m.labelled := by
    rw [labelled, labelled, h.sequence_eq, funext h.needsLabel_eq]
  rw [names, names, hlabelled]
  exact h.nameAll_eq _ _ _

end SameLabels

end Labelling

namespace LabelPolicy

variable {p : LabelPolicy}

theorem labelName_eq_of_sameLabels {q : LabelPolicy} (h : p.toLabelling.SameLabels q.toLabelling) (u : Uid) :
    p.labelName u = q.labelName u := by
  rw [labelName, labelName, p.names_eq, q.names_eq, h.names_eq, h.baseName_eq]

theorem mem_labelled {u : Uid} : u ∈ p.labelled ↔ u ∈ p.sequence ∧ p.needsLabel u := List.mem_filter

/-- A name that is found for a uid is what the uid is called by. -/
theorem labelName_mem_names_of_lookup {u : Uid} {name : String} (h : p.names.lookup u = some name) :
    (u, p.labelName u) ∈ p.names := by
  obtain ⟨before, after, heq, -⟩ := List.lookup_eq_some_iff.mp h
  rw [labelName, h, heq]
  exact List.mem_append_right _ List.mem_cons_self

/-- A uid that is named is called by its name. -/
theorem labelName_mem_names {u : Uid} (h : u ∈ p.labelled) : (u, p.labelName u) ∈ p.names := by
  obtain ⟨name, hname⟩ : ∃ name, (u, name) ∈ p.nameAll p.labelled [] p.labelled :=
    Labelling.exists_mem_nameAll h
  have hmem : (u, name) ∈ p.names := by rw [p.names_eq]; exact hname
  have hsome : (p.names.lookup u).isSome := List.lookup_isSome_iff.mpr ⟨_, hmem, by simp⟩
  obtain ⟨found, hfound⟩ := Option.isSome_iff_exists.mp hsome
  exact labelName_mem_names_of_lookup hfound

/-- Different labels are called differently. -/
theorem eq_of_labelName_eq {u v : Uid} (hu : u ∈ p.labelled) (hv : v ∈ p.labelled)
    (h : p.labelName u = p.labelName v) : u = v := by
  have hnodup : (p.names.map (·.2)).Nodup := by
    rw [p.names_eq]
    exact Labelling.nodup_names_nameAll .nil
  have heq := List.inj_on_of_nodup_map hnodup (labelName_mem_names hu) (labelName_mem_names hv) h
  exact congrArg Prod.fst heq

end LabelPolicy

end StoryGraph
