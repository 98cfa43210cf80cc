import StoryGraph.Proofs.Scene.Lookup
import StoryGraph.Scene.Sequence

/-!
# The emission sequence has every bubble once

Sorting moves bubbles about and neither drops nor doubles one. What comes first may come before every
other bubble, so that the start comes first unless a bubble has a lower order.
-/

namespace StoryGraph.Scene

theorem sequence_perm (s : Scene) : s.sequence.Perm (s.bubbles.map (·.uid)) :=
  (List.mergeSort_perm s.bubbles precedes).map _

theorem mem_sequence {s : Scene} {u : Uid} : u ∈ s.sequence ↔ ∃ b ∈ s.bubbles, b.uid = u := by
  rw [s.sequence_perm.mem_iff, List.mem_map]

theorem WellFormed.nodup_sequence {s : Scene} (h : s.WellFormed) : s.sequence.Nodup :=
  s.sequence_perm.nodup_iff.mpr h.nodup_bubbleUids

theorem precedes_iff {a b : Bubble} :
    precedes a b ↔ a.order.toInt < b.order.toInt ∨ a.order.toInt = b.order.toInt ∧
      (a.isStart = true ∧ b.isStart = false ∨
        a.isStart = b.isStart ∧ a.uid.toNat ≤ b.uid.toNat) := by
  have huid : a.uid ≤ b.uid ↔ a.uid.toNat ≤ b.uid.toNat := UInt32.le_iff_toNat_le
  simp [precedes, huid, Int64.lt_iff_toInt_lt, ← Int64.toInt_inj]

theorem precedes_total (a b : Bubble) : precedes a b || precedes b a := by
  rw [Bool.or_eq_true, precedes_iff, precedes_iff]
  cases a.isStart <;> cases b.isStart <;> simp <;> omega

theorem precedes_trans (a b c : Bubble) (hab : precedes a b) (hbc : precedes b c) :
    precedes a c := by
  rw [precedes_iff] at hab hbc ⊢
  rcases hab with hab | ⟨hab, hab'⟩
  · rcases hbc with hbc | ⟨hbc, -⟩ <;> exact .inl (by omega)
  · rcases hbc with hbc | ⟨hbc, hbc'⟩
    · exact .inl (by omega)
    · refine .inr ⟨hab.trans hbc, ?_⟩
      rcases hab' with ⟨ha, hb⟩ | ⟨ha, hab'⟩ <;> rcases hbc' with ⟨hb', hc⟩ | ⟨hb', hbc'⟩
      · simp [hb] at hb'
      · exact .inl ⟨ha, hb' ▸ hb⟩
      · exact .inl ⟨ha.trans hb', hc⟩
      · exact .inr ⟨ha.trans hb', Nat.le_trans hab' hbc'⟩

/-- Bubbles that may each come before the other have one uid. -/
theorem uid_eq_of_precedes {a b : Bubble} (hab : precedes a b) (hba : precedes b a) : a.uid = b.uid := by
  rw [precedes_iff] at hab hba
  rw [← Uid.toNat_inj]
  cases ha : a.isStart <;> cases hb : b.isStart <;> simp [ha, hb] at hab hba <;> omega

/-- The bubbles have one sequence, however it is found. -/
theorem WellFormed.sequence_eq_map {s : Scene} (hs : s.WellFormed) {l : List Bubble}
    (hperm : l.Perm s.bubbles) (hsorted : l.Pairwise (precedes · ·)) : s.sequence = l.map (·.uid) := by
  have hsort := List.mergeSort_perm s.bubbles precedes
  refine congrArg (List.map (·.uid)) (List.Perm.eq_of_pairwise ?_
    (List.pairwise_mergeSort precedes_trans precedes_total s.bubbles) hsorted (hsort.trans hperm.symm))
  intro a b ha hb hab hba
  exact hs.eq_of_mem_uids (hsort.mem_iff.mp ha) (hperm.mem_iff.mp hb) a.uid_mem_uids
    (uid_eq_of_precedes hab hba ▸ b.uid_mem_uids)

/-- A bubble that has to come before another one does. -/
theorem WellFormed.mem_before_of_precedes {s : Scene} (hs : s.WellFormed) {a b : Bubble}
    (ha : a ∈ s.bubbles) (hb : b ∈ s.bubbles) (hba : ¬ precedes b a) {before after : List Uid}
    (h : s.sequence = before ++ b.uid :: after) : a.uid ∈ before := by
  obtain ⟨front, rest, hsort, rfl, hrest⟩ := List.map_eq_append_iff.mp h
  obtain ⟨b', back, rfl, huid, rfl⟩ := List.map_eq_cons_iff.mp hrest
  have hperm := List.mergeSort_perm s.bubbles precedes
  have hsorted := List.pairwise_mergeSort precedes_trans precedes_total s.bubbles
  rw [hsort] at hperm hsorted
  have hb' : b' ∈ s.bubbles := hperm.mem_iff.mp (List.mem_append_right _ List.mem_cons_self)
  obtain rfl := hs.eq_of_mem_uids hb' hb b'.uid_mem_uids (huid ▸ b.uid_mem_uids)
  rcases List.mem_append.mp (hperm.mem_iff.mpr ha) with hfront | hback
  · exact List.mem_map_of_mem hfront
  · rcases List.mem_cons.mp hback with rfl | hback
    · exact absurd (by simpa using precedes_total a a) hba
    · have hlater := (List.pairwise_cons.mp (List.pairwise_append.mp hsorted).2.1).1 a hback
      exact absurd hlater hba

/-- The first bubble of the sequence may come before every bubble. -/
theorem exists_first {s : Scene} {first : Uid} {others : List Uid}
    (h : s.sequence = first :: others) :
    ∃ b ∈ s.bubbles, b.uid = first ∧ ∀ b' ∈ s.bubbles, precedes b b' := by
  obtain ⟨b, bs, hsort, rfl, -⟩ := List.map_eq_cons_iff.mp h
  have hperm := List.mergeSort_perm s.bubbles precedes
  have hsorted := List.pairwise_mergeSort precedes_trans precedes_total s.bubbles
  rw [hsort] at hperm hsorted
  refine ⟨b, hperm.mem_iff.mp List.mem_cons_self, rfl, ?_⟩
  intro b' hb'
  rcases List.mem_cons.mp (hperm.mem_iff.mpr hb') with rfl | hmem
  · simpa using precedes_total b' b'
  · exact (List.pairwise_cons.mp hsorted).1 b' hmem

/-- The start comes first exactly if no bubble has a lower order. -/
theorem WellFormed.first_eq_start_iff {s : Scene} (hs : s.WellFormed) {start : Bubble}
    (hstart : s.start? = some start) {first : Uid} {others : List Uid}
    (h : s.sequence = first :: others) :
    first = start.uid ↔ ∀ b ∈ s.bubbles, start.order ≤ b.order := by
  obtain ⟨hmem, hisStart⟩ := hs.start?_eq_some_iff.mp hstart
  obtain ⟨b, hb, rfl, hfirst⟩ := exists_first h
  constructor
  · intro huid b' hb'
    obtain rfl : b = start := by
      have hlookup := hs.bubble?_uid hb
      rw [huid, hs.bubble?_uid hmem] at hlookup
      exact (Option.some.inj hlookup).symm
    have hle := precedes_iff.mp (hfirst b' hb')
    rw [Int64.le_iff_toInt_le]
    omega
  · intro hlow
    have hle := Int64.le_iff_toInt_le.mp (hlow b hb)
    have hbStart : b.isStart := by
      rcases precedes_iff.mp (hfirst start hmem) with hlt | ⟨-, ⟨hb, -⟩ | ⟨hb, -⟩⟩
      · omega
      · exact hb
      · exact hb.trans hisStart
    rw [hs.eq_of_isStart hb hmem hbStart hisStart]

end StoryGraph.Scene
