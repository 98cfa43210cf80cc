import StoryGraph.Proofs.Scene.InPlace

/-!
# Adding a choice

The options of a new choice keep their uids, and the choice takes the smallest uid that is free. It takes
its own first. So it is not enough for the uids of the options to be free and different: the choice may
have taken one of them, and then it cannot be added.
-/

namespace StoryGraph

variable {d : Draft} {options : List ChoiceOption}

namespace Draft

/-- A bubble is added under the uid that is allocated, and what the pool says of its options decides
whether it can stay. -/
theorem addBubble_of_allocate {kind : BubbleKind} (hkind : kind ≠ .start) {uid : Uid} {pool : UidPool}
    (hallocate : d.pool.allocate = .ok (uid, pool)) :
    d.addBubble kind = (pool.claimAll (kind.options.map (·.uid))).map fun pool ↦
      (uid, ⟨{ d.scene with bubbles := d.scene.bubbles ++ [.create uid kind] }, pool⟩) := by
  rw [addBubble, if_neg hkind, hallocate]
  rfl

end Draft

namespace InPlace

/-- While there are more free uids than options, a choice gets the smallest of the free ones. It is added
if the uids of its options are free, different from one another and different from that one, and the
pool then has these uids more. Otherwise nothing changes, and the uid is named that clashes first. -/
theorem runFrom_addBubble_choice (hroom : options.length < UInt32.size - d.pool.size) :
    ∃ uid, uid ∉ d.pool ∧ (∀ v, v ∉ d.pool → uid ≤ v) ∧
      ((uid :: options.map (·.uid)).Nodup ∧ (∀ o ∈ options, o.uid ∉ d.pool) →
        ∃ pool, (addBubble (.choice options)).runFrom d =
            (.ok uid, ⟨{ d.scene with
              bubbles := d.scene.bubbles ++ [.create uid (.choice options)] }, pool⟩) ∧
          ∀ v, v ∈ pool ↔ v ∈ uid :: options.map (·.uid) ∨ v ∈ d.pool) ∧
      (¬ ((uid :: options.map (·.uid)).Nodup ∧ ∀ o ∈ options, o.uid ∉ d.pool) →
        ∃ u, (d.pool.insert uid).Clashes (options.map (·.uid)) u ∧
          (addBubble (.choice options)).runFrom d = (.error (.duplicateUid u), d)) := by
  obtain ⟨uid, pool, hallocate, hle⟩ := UidPool.exists_allocate (p := d.pool) (by omega)
  obtain ⟨hfree, hmem⟩ := UidPool.of_allocate hallocate
  obtain rfl : pool = d.pool.insert uid := by
    refine UidPool.eq_of_mem_iff fun v ↦ ?_
    rw [hmem, UidPool.mem_insert]
  have hadd : d.addBubble (.choice options) = _ := Draft.addBubble_of_allocate (by simp) hallocate
  have hcan : ((options.map (·.uid)).Nodup ∧ ∀ u ∈ options.map (·.uid), u ∉ d.pool.insert uid) ↔
      (uid :: options.map (·.uid)).Nodup ∧ ∀ o ∈ options, o.uid ∉ d.pool := by
    simp only [UidPool.mem_insert, not_or, forall_and, List.forall_mem_ne', List.forall_mem_map,
      List.nodup_cons]
    tauto
  refine ⟨uid, hfree, hle, ?_, ?_⟩
  · intro h
    obtain ⟨hnodup, hfree⟩ := hcan.mpr h
    obtain ⟨pool, hclaim⟩ := UidPool.exists_claimAll hnodup hfree
    refine ⟨pool, ?_, ?_⟩
    · rw [runFrom_addBubble, hadd, BubbleKind.options, hclaim]
      rfl
    · intro v
      rw [(UidPool.of_claimAll hclaim).2.2, UidPool.mem_insert, List.mem_cons]
      tauto
  · intro h
    obtain ⟨u, hu⟩ := UidPool.exists_clashes_iff.mpr (mt hcan.mp h)
    refine ⟨u, hu, ?_⟩
    rw [runFrom_addBubble, hadd, BubbleKind.options,
      UidPool.claimAll_eq_error_iff.mpr ⟨u, hu, rfl⟩]
    rfl

/-- A new scene, with the pool that only its start is taken from. -/
def opening : Draft := ⟨.create "startup" ⟨0⟩, UidPool.empty.insert ⟨0⟩⟩

/-- Options that leave a gap below them, which the choice takes. -/
def staying : List ChoiceOption := [⟨⟨2⟩, "Stay"⟩, ⟨⟨7⟩, "Leave"⟩]

theorem runFrom_addBubble_staying :
    staying.length < UInt32.size - opening.pool.size ∧
      ∃ pool, (addBubble (.choice staying)).runFrom opening =
          (.ok ⟨1⟩, ⟨{ opening.scene with
            bubbles := opening.scene.bubbles ++ [.create ⟨1⟩ (.choice staying)] }, pool⟩) ∧
        ∀ v, v ∈ pool ↔ v ∈ (⟨1⟩ : Uid) :: staying.map (·.uid) ∨ v ∈ opening.pool := by
  have hroom : staying.length < UInt32.size - opening.pool.size := by decide
  obtain ⟨uid, hfree, hle, hadd, -⟩ := runFrom_addBubble_choice hroom
  obtain rfl : uid = ⟨1⟩ := by
    have hone : uid.toNat ≤ 1 := Uid.le_iff_toNat_le.mp (hle ⟨1⟩ (by decide))
    have hzero : uid.toNat ≠ 0 := by
      intro heq
      obtain rfl : uid = ⟨0⟩ := Uid.toNat_inj.mp heq
      exact hfree (by decide)
    exact Uid.toNat_inj.mp (show uid.toNat = 1 by omega)
  exact ⟨hroom, hadd (by decide)⟩

/-- An option with a free uid, which is the one that the choice takes. -/
def leaving : List ChoiceOption := [⟨⟨1⟩, "Leave"⟩]

/-- It is not enough for the uids of the options to be free and different from one another. -/
theorem not_forall_added : ¬ ∀ (d : Draft) (options : List ChoiceOption),
    options.length < UInt32.size - d.pool.size →
      ((∃ uid d', (addBubble (.choice options)).runFrom d = (.ok uid, d')) ↔
        (options.map (·.uid)).Nodup ∧ ∀ o ∈ options, o.uid ∉ d.pool) := by
  intro h
  obtain ⟨uid, d', hadd⟩ := (h opening leaving (by decide)).mpr (by decide)
  have hfail : (addBubble (.choice leaving)).runFrom opening =
      (.error (.duplicateUid ⟨1⟩), opening) := rfl
  rw [hfail] at hadd
  exact nomatch (Prod.mk.inj hadd).1

end InPlace

end StoryGraph
