import Mathlib.Data.List.Perm.Basic
import Mathlib.Tactic.Tauto
import StoryGraph.Proofs.Outcome
import StoryGraph.Scene.Edit

/-!
# What edits do to the pool

An edit takes uids from the pool and gives uids back. Whatever it takes was free, and in the pool that it
leaves behind nothing else has changed.
-/

namespace StoryGraph

theorem le_firstGap (candidate : Nat) (us : List Uid) : candidate ≤ firstGap candidate us := by
  induction us generalizing candidate with
  | nil => exact Nat.le_refl candidate
  | cons u us ih =>
      rw [firstGap]
      split
      · exact Nat.le_of_succ_le (ih (candidate + 1))
      · exact Nat.le_refl candidate

/-- The first gap of an ascending list is one. -/
theorem toNat_ne_firstGap {us : List Uid} (h : us.Pairwise (· < ·)) {candidate : Nat}
    (hle : ∀ u ∈ us, candidate ≤ u.toNat) {u : Uid} (hu : u ∈ us) :
    u.toNat ≠ firstGap candidate us := by
  induction us generalizing candidate with
  | nil => simp at hu
  | cons v us ih =>
      obtain ⟨hv, hus⟩ := List.pairwise_cons.mp h
      have hlt : ∀ w ∈ us, v.toNat < w.toNat := fun w hw ↦ Uid.lt_iff_toNat_lt.mp (hv w hw)
      rw [firstGap]
      split
      · rename_i heq
        rcases List.mem_cons.mp hu with rfl | hu
        · have := le_firstGap (candidate + 1) us
          omega
        · exact ih hus (fun w hw ↦ heq ▸ hlt w hw) hu
      · rename_i hne
        have hfirst : candidate < v.toNat := by
          have := hle v List.mem_cons_self
          omega
        rcases List.mem_cons.mp hu with rfl | hu
        · exact hne
        · have := hlt u hu
          omega

/-- Every number that comes before the first gap is named. -/
theorem exists_mem_of_lt_firstGap {us : List Uid} {candidate n : Nat} (hle : candidate ≤ n)
    (hlt : n < firstGap candidate us) : ∃ u ∈ us, u.toNat = n := by
  induction us generalizing candidate with
  | nil => exact absurd hlt (Nat.not_lt.mpr hle)
  | cons u us ih =>
      rw [firstGap] at hlt
      split at hlt
      · rename_i heq
        rcases Nat.eq_or_lt_of_le hle with rfl | hle
        · exact ⟨u, List.mem_cons_self, heq⟩
        · obtain ⟨v, hv, hn⟩ := ih hle hlt
          exact ⟨v, List.mem_cons_of_mem _ hv, hn⟩
      · exact absurd hlt (Nat.not_lt.mpr hle)

/-- So many numbers are named at most before the first gap as the list is long. -/
theorem firstGap_le (candidate : Nat) (us : List Uid) :
    firstGap candidate us ≤ candidate + us.length := by
  induction us generalizing candidate with
  | nil => exact Nat.le_refl candidate
  | cons u us ih =>
      rw [firstGap, List.length_cons]
      split
      · have := ih (candidate + 1)
        omega
      · omega

namespace UidPool

variable {p p' : UidPool} {u v : Uid} {us : List Uid} {e : Error}

/-- Pools with the same members are the same, since a pool keeps its members in order. -/
theorem eq_of_mem_iff {p q : UidPool} (h : ∀ u, u ∈ p ↔ u ∈ q) : p = q := by
  obtain ⟨us, hus⟩ := p
  obtain ⟨vs, hvs⟩ := q
  have hnodup : ∀ {ws : List Uid}, ws.Pairwise (· < ·) → ws.Nodup := by
    intro ws hws
    refine hws.imp ?_
    rintro a _ hlt rfl
    exact Uid.lt_irrefl a hlt
  have hperm : us.Perm vs := (List.perm_ext_iff_of_nodup (hnodup hus) (hnodup hvs)).mpr h
  obtain rfl : us = vs := by
    refine List.Perm.eq_of_pairwise ?_ hus hvs hperm
    intro a b _ _ hab hba
    exact absurd (Uid.lt_trans hab hba) (Uid.lt_irrefl a)
  rfl

/-- A uid that is allocated was free. -/
theorem of_allocate (h : p.allocate = .ok (u, p')) : u ∉ p ∧ ∀ v, v ∈ p' ↔ v = u ∨ v ∈ p := by
  unfold allocate allocate? fresh? Uid.ofNat? at h
  split at h
  · rename_i htaken
    obtain rfl := Except.ok.inj h
    obtain ⟨w, hw, heq⟩ := Option.map_eq_some_iff.mp htaken
    obtain ⟨rfl, rfl⟩ := Prod.mk.inj heq
    refine ⟨?_, fun v ↦ mem_insert⟩
    intro hmem
    split at hw
    · rename_i hlt
      obtain rfl := Option.some.inj hw
      refine toNat_ne_firstGap p.ascending (fun _ _ ↦ Nat.zero_le _) hmem ?_
      exact UInt32.toNat_ofNat_of_lt' hlt
    · simp at hw
  · contradiction

theorem allocate_of_fresh (h : p.fresh? = some u) : p.allocate = .ok (u, p.insert u) := by
  rw [allocate, allocate?, h]
  rfl

/-- Where a uid is not in use, the first gap is a uid. -/
theorem firstGap_lt_of_not_mem (hu : u ∉ p) : firstGap 0 p.uids < UInt32.size := by
  by_contra hle
  have hlt := u.toNat_lt
  obtain ⟨v, hv, hval⟩ := exists_mem_of_lt_firstGap (Nat.zero_le u.toNat) (by omega : _ < firstGap 0 p.uids)
  exact hu (Uid.toNat_inj.mp hval ▸ hv)

/-- Where a uid is not in use, one is allocated, and none that is free is smaller. -/
theorem exists_allocate_of_not_mem (hu : u ∉ p) :
    ∃ v p', p.allocate = .ok (v, p') ∧ p.fresh? = some v ∧ ∀ w, w ∉ p → v ≤ w := by
  have hlt := firstGap_lt_of_not_mem hu
  have hfresh : p.fresh? = some ⟨(firstGap 0 p.uids).toUInt32⟩ := if_pos hlt
  refine ⟨_, _, allocate_of_fresh hfresh, hfresh, ?_⟩
  intro w hw
  rw [Uid.le_iff_toNat_le]
  by_contra hless
  have htoNat : Uid.toNat ⟨(firstGap 0 p.uids).toUInt32⟩ = firstGap 0 p.uids :=
    UInt32.toNat_ofNat_of_lt' hlt
  rw [htoNat, Nat.not_le] at hless
  obtain ⟨x, hx, hval⟩ := exists_mem_of_lt_firstGap (Nat.zero_le _) hless
  exact hw (Uid.toNat_inj.mp hval ▸ hx)

/-- As long as not all uids are in use, one is allocated, and none that is free is smaller. -/
theorem exists_allocate (hroom : p.size < UInt32.size) :
    ∃ u p', p.allocate = .ok (u, p') ∧ ∀ v, v ∉ p → u ≤ v := by
  have hlt : firstGap 0 p.uids < UInt32.size := by
    have hle := firstGap_le 0 p.uids
    unfold size at hroom
    omega
  have hfree : (⟨(firstGap 0 p.uids).toUInt32⟩ : Uid) ∉ p := fun hmem ↦
    toNat_ne_firstGap p.ascending (fun _ _ ↦ Nat.zero_le _) hmem (UInt32.toNat_ofNat_of_lt' hlt)
  obtain ⟨u, p', hallocate, -, hleast⟩ := exists_allocate_of_not_mem hfree
  exact ⟨u, p', hallocate, hleast⟩

theorem claimAll_cons_of_mem (hu : u ∈ p) (us : List Uid) :
    p.claimAll (u :: us) = .error (.duplicateUid u) := by
  rw [claimAll, claim?, if_pos hu]

theorem claimAll_cons_of_not_mem (hu : u ∉ p) (us : List Uid) :
    p.claimAll (u :: us) = (p.insert u).claimAll us := by
  rw [claimAll, claim?, if_neg hu]

/-- Uids that are claimed were free, and none is claimed twice. -/
theorem of_claimAll (h : p.claimAll us = .ok p') :
    us.Nodup ∧ (∀ u ∈ us, u ∉ p) ∧ ∀ v, v ∈ p' ↔ v ∈ us ∨ v ∈ p := by
  induction us generalizing p with
  | nil =>
      obtain rfl := Except.ok.inj h
      simp
  | cons u us ih =>
      by_cases hfree : u ∈ p
      · rw [claimAll_cons_of_mem hfree] at h
        contradiction
      · rw [claimAll_cons_of_not_mem hfree] at h
        obtain ⟨hnodup, hnot, hmem⟩ := ih h
        have hu : u ∉ us := fun hu ↦ hnot u hu (mem_insert.mpr (.inl rfl))
        refine ⟨List.nodup_cons.mpr ⟨hu, hnodup⟩, ?_, ?_⟩
        · refine List.forall_mem_cons.mpr ⟨hfree, ?_⟩
          intro v hv hp
          exact hnot v hv (mem_insert.mpr (.inr hp))
        · intro v
          rw [hmem, mem_insert, List.mem_cons]
          tauto

/-- `p.Clashes us u`: of some uids, `u` is the first that is in a pool or has come before. -/
def Clashes (p : UidPool) (us : List Uid) (u : Uid) : Prop :=
  ∃ before after, us = before ++ u :: after ∧ before.Nodup ∧ (∀ v ∈ before, v ∉ p) ∧
    (u ∈ p ∨ u ∈ before)

theorem not_clashes_nil : ¬ p.Clashes [] u := by
  rintro ⟨before, after, heq, -⟩
  simp at heq

theorem clashes_cons_of_mem (hu : u ∈ p) : p.Clashes (u :: us) v ↔ v = u := by
  constructor
  · rintro ⟨before, after, heq, -, hfree, -⟩
    cases before with
    | nil => exact (List.cons.inj heq).1.symm
    | cons w ws =>
        obtain ⟨rfl, -⟩ := List.cons.inj heq
        exact absurd hu (hfree u List.mem_cons_self)
  · rintro rfl
    exact ⟨[], us, rfl, .nil, List.forall_mem_nil _, .inl hu⟩

/-- A uid that is free goes into the pool, where others clash with it. -/
theorem clashes_cons_of_not_mem (hu : u ∉ p) :
    p.Clashes (u :: us) v ↔ (p.insert u).Clashes us v := by
  constructor
  · rintro ⟨before, after, heq, hnodup, hfree, hv⟩
    cases before with
    | nil =>
        obtain ⟨rfl, -⟩ := List.cons.inj heq
        simp [hu] at hv
    | cons w ws =>
        obtain ⟨rfl, rfl⟩ := List.cons.inj heq
        obtain ⟨hnot, hnodup⟩ := List.nodup_cons.mp hnodup
        refine ⟨ws, after, rfl, hnodup, ?_, ?_⟩
        · intro w hw hmem
          rcases mem_insert.mp hmem with rfl | hmem
          · exact hnot hw
          · exact hfree w (List.mem_cons_of_mem _ hw) hmem
        · rw [List.mem_cons] at hv
          rw [mem_insert]
          tauto
  · rintro ⟨before, after, rfl, hnodup, hfree, hv⟩
    have hnot : u ∉ before := fun hmem ↦ hfree u hmem (mem_insert.mpr (.inl rfl))
    refine ⟨u :: before, after, rfl, List.nodup_cons.mpr ⟨hnot, hnodup⟩, ?_, ?_⟩
    · refine List.forall_mem_cons.mpr ⟨hu, ?_⟩
      intro w hw hmem
      exact hfree w hw (mem_insert.mpr (.inr hmem))
    · rw [mem_insert] at hv
      rw [List.mem_cons]
      tauto

/-- Claiming fails at the first uid that clashes. -/
theorem claimAll_eq_error_iff :
    p.claimAll us = .error e ↔ ∃ u, p.Clashes us u ∧ e = .duplicateUid u := by
  induction us generalizing p with
  | nil => simp [claimAll, not_clashes_nil]
  | cons u us ih =>
      by_cases hu : u ∈ p
      · rw [claimAll_cons_of_mem hu]
        simp [clashes_cons_of_mem hu, @eq_comm _ e]
      · rw [claimAll_cons_of_not_mem hu, ih]
        simp only [clashes_cons_of_not_mem hu]

/-- Where there is no clash, the uids are different from one another and free. -/
theorem exists_clashes_iff : (∃ u, p.Clashes us u) ↔ ¬ (us.Nodup ∧ ∀ u ∈ us, u ∉ p) := by
  induction us generalizing p with
  | nil => simp [not_clashes_nil]
  | cons u us ih =>
      by_cases hu : u ∈ p
      · simp [clashes_cons_of_mem hu, hu]
      · have hfree : (∀ v ∈ us, v ∉ p.insert u) ↔ u ∉ us ∧ ∀ v ∈ us, v ∉ p := by
          simp only [mem_insert, not_or, forall_and]
          exact and_congr_left' List.forall_mem_ne'
        simp only [clashes_cons_of_not_mem hu, ih, hfree, List.nodup_cons, List.forall_mem_cons]
        tauto

/-- Uids can be claimed if they are different from one another and free. -/
theorem exists_claimAll (hnodup : us.Nodup) (hfree : ∀ u ∈ us, u ∉ p) : ∃ p', p.claimAll us = .ok p' := by
  cases hclaim : p.claimAll us with
  | ok p' => exact ⟨p', rfl⟩
  | error e =>
      obtain ⟨u, hu, -⟩ := claimAll_eq_error_iff.mp hclaim
      exact absurd ⟨hnodup, hfree⟩ (exists_clashes_iff.mp ⟨u, hu⟩)

@[simp] theorem mem_eraseAll : v ∈ p.eraseAll us ↔ v ∈ p ∧ v ∉ us := by
  unfold eraseAll
  induction us generalizing p with
  | nil => simp
  | cons u us ih =>
      rw [List.foldl_cons, ih, mem_erase, List.mem_cons]
      tauto

end UidPool

end StoryGraph
