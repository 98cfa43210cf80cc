import StoryGraph.Proofs.Scene.Edit
import StoryGraph.Scene.InPlace

/-!
# Edits in place take back what they have done

An edit that is carried out step by step comes to what the edit comes to that works on a draft of its own:
where it fails, the scene and the pool are again what they were. For a connection there has to be an id,
and an option has to be in a sound draft, since its link goes before it is looked for.
-/

namespace StoryGraph

/-- What is left behind where something is tried that gives a value and a new state. -/
def settle {σ α : Type} (s : σ) : Except Error (α × σ) → Except Error α × σ
  | .ok (a, s') => (.ok a, s')
  | .error e => (.error e, s)

@[simp] theorem settle_ok {σ α : Type} (s s' : σ) (a : α) : settle s (.ok (a, s')) = (.ok a, s') := rfl

@[simp] theorem settle_error {σ α : Type} (s : σ) (e : Error) :
    settle s (.error e : Except Error (α × σ)) = (.error e, s) := rfl

theorem eq_of_settle_eq_error {σ α : Type} {s s' : σ} {result : Except Error (α × σ)} {e : Error}
    (h : settle s result = (.error e, s')) : s' = s := by
  cases result with
  | error _ => exact (Prod.mk.inj h).2.symm
  | ok r => exact nomatch (Prod.mk.inj h).1

theorem of_settle_eq_ok {σ α : Type} {s s' : σ} {result : Except Error (α × σ)} {a : α}
    (h : settle s result = (.ok a, s')) : result = .ok (a, s') := by
  cases result with
  | error _ => exact nomatch (Prod.mk.inj h).1
  | ok r =>
      obtain ⟨hresult, rfl⟩ := Prod.mk.inj h
      rw [← Except.ok.inj hresult]

theorem of_settle_map_eq_ok {σ τ α : Type} {s s' : σ} {result : Except Error τ} {f : τ → α × σ} {a : α}
    (h : settle s (result.map f) = (.ok a, s')) : ∃ r, result = .ok r ∧ f r = (a, s') := by
  cases result with
  | error _ => exact nomatch (Prod.mk.inj h).1
  | ok r => exact ⟨r, rfl, Except.ok.inj (of_settle_eq_ok h)⟩

namespace UidPool

variable {p q : UidPool} {us : List Uid}

/-- Uids that were claimed go back, and nothing else does. -/
theorem eraseAll_eq_of_mem_iff (hfree : ∀ u ∈ us, u ∉ p) (hmem : ∀ u, u ∈ q ↔ u ∈ us ∨ u ∈ p) :
    q.eraseAll us = p := by
  refine eq_of_mem_iff fun u ↦ ?_
  have := hfree u
  rw [mem_eraseAll, hmem]
  tauto

end UidPool

namespace InPlace

variable {d : Draft}

/-! ## Uids -/

theorem runFrom_allocate (d : Draft) :
    allocate.runFrom d =
      settle d (d.pool.allocate.map fun (uid, pool) ↦ (uid, { d with pool })) := by
  simp only [allocate, runFrom_bind, runFrom_get, runFrom_check]
  cases d.pool.allocate <;> rfl

theorem runFrom_claim (d : Draft) (u : Uid) :
    (claim u).runFrom d =
      if u ∈ d.pool then (.error (.duplicateUid u), d)
      else (.ok (), { d with pool := d.pool.insert u }) := by
  simp only [claim, runFrom_bind, runFrom_get, UidPool.claim?]
  by_cases hu : u ∈ d.pool <;> simp [hu]

/-- Claiming goes on, or it fails and the pool is what it was before the first claim. -/
theorem runFrom_claimAll {p : UidPool} {claimed : List Uid} (hfree : ∀ u ∈ claimed, u ∉ p)
    (hmem : ∀ u, u ∈ d.pool ↔ u ∈ claimed ∨ u ∈ p) (us : List Uid) :
    (claimAll claimed us).runFrom d =
      match d.pool.claimAll us with
      | .ok pool => (.ok (), { d with pool })
      | .error e => (.error e, { d with pool := p }) := by
  induction us generalizing d claimed with
  | nil => rfl
  | cons u us ih =>
      rw [claimAll, runFrom_bind, runFrom_tryCatch, runFrom_claim]
      by_cases hu : u ∈ d.pool
      · rw [UidPool.claimAll_cons_of_mem hu]
        simp [hu, release, runFrom_bind, UidPool.eraseAll_eq_of_mem_iff hfree hmem]
      · rw [UidPool.claimAll_cons_of_not_mem hu]
        simp only [hu, if_false]
        refine ih (d := { d with pool := d.pool.insert u }) ?_ ?_
        · intro v hv hp
          rcases List.mem_append.mp hv with hv | hv
          · exact hfree v hv hp
          · rw [List.mem_singleton.mp hv] at hp
            exact hu ((hmem u).mpr (.inr hp))
        · intro v
          show v ∈ d.pool.insert u ↔ _
          rw [UidPool.mem_insert, hmem, List.mem_append, List.mem_singleton]
          tauto

/-- Uids are claimed one after the other, all or none. -/
theorem runFrom_claimAll_nil (d : Draft) (us : List Uid) :
    (claimAll [] us).runFrom d =
      settle d ((d.pool.claimAll us).map fun pool ↦ ((), { d with pool })) := by
  rw [runFrom_claimAll (p := d.pool) (by simp) (by simp)]
  cases d.pool.claimAll us <;> rfl

/-! ## Bubbles and options -/

theorem runFrom_addBubble (d : Draft) (kind : BubbleKind) :
    (addBubble kind).runFrom d = settle d (d.addBubble kind) := by
  rw [addBubble, Draft.addBubble]
  split
  · rfl
  · rw [runFrom_bind, runFrom_allocate]
    cases hallocate : d.pool.allocate with
    | error e => rfl
    | ok taken =>
        obtain ⟨uid, pool⟩ := taken
        obtain ⟨hfree, hmem⟩ := UidPool.of_allocate hallocate
        have hback : pool.eraseAll [uid] = d.pool :=
          UidPool.eraseAll_eq_of_mem_iff (by simpa using hfree) (by simpa using hmem)
        simp only [Except.map, settle_ok, runFrom_bind, runFrom_tryCatch, runFrom_claimAll_nil]
        show _ = settle d (pool.claimAll _ >>= _)
        cases pool.claimAll (Bubble.create uid kind).optionUids with
        | error e =>
            show (Except.error e, { d with pool := pool.eraseAll [uid] }) = (Except.error e, d)
            rw [hback]
        | ok pool => rfl

theorem runFrom_insertBubble (d : Draft) (b : Bubble) :
    (insertBubble b).runFrom d = settle d ((d.insertBubble b).map ((), ·)) := by
  rw [insertBubble, Draft.insertBubble, runFrom_bind, runFrom_get]
  dsimp only
  split
  · rfl
  · rw [runFrom_bind, runFrom_claimAll_nil]
    cases hclaim : d.pool.claimAll b.uids with
    | error e => rfl
    | ok pool => rfl

theorem runFrom_addOption (d : Draft) (choice : Uid) (text : String) :
    (addOption choice text).runFrom d = settle d (d.addOption choice text) := by
  rw [addOption, Draft.addOption, runFrom_bind, runFrom_get]
  dsimp only
  cases d.scene.bubble? choice with
  | none => rfl
  | some b =>
      dsimp only
      split
      · rfl
      · rw [runFrom_bind, runFrom_allocate]
        cases d.pool.allocate <;> rfl

theorem runFrom_removeBubble (d : Draft) (uid : Uid) :
    (removeBubble uid).runFrom d = settle d (d.removeBubble uid) := by
  rw [removeBubble, Draft.removeBubble, runFrom_bind, runFrom_get]
  dsimp only
  cases d.scene.bubble? uid with
  | none => rfl
  | some b =>
      dsimp only
      split <;> rfl

/-- An option of a sound draft is found in its owner, so that removing it does not fail once its link is
gone. -/
theorem eq_of_removeOption_eq_error {name : String} {others : List Uid} (h : d.Sound name others)
    {option : Uid} {e : Error} {d' : Draft} (hfail : (removeOption option).runFrom d = (.error e, d')) :
    d' = d := by
  rw [removeOption, runFrom_ofFun, Draft.removeOption] at hfail
  split at hfail
  · exact (Prod.mk.inj hfail).2.symm
  · rename_i owner howner
    obtain ⟨hmem, ho⟩ := h.wellFormed.owner?_eq_some_iff.mp howner
    obtain ⟨o, ho, huid⟩ := List.mem_map.mp ho
    have hfind : ((d.scene.bubble? owner.uid).bind (·.options.find? (·.uid = option))).isSome := by
      rw [h.wellFormed.bubble?_uid hmem]
      exact List.find?_isSome.mpr ⟨o, ho, by simp [huid]⟩
    dsimp only at hfail
    split at hfail
    · rename_i hnone
      simp [hnone] at hfind
    · exact nomatch (Prod.mk.inj hfail).1

/-! ## Connections -/

/-- What left a slot goes before an id is looked for, and stays away if there is none. -/
theorem runFrom_connect_of_checkLink {d : Draft} {slot : Slot} {target : Uid}
    (hcheck : d.scene.checkLink slot target = .ok ()) (sourceAnchor targetAnchor : Anchor) :
    (connect slot target sourceAnchor targetAnchor).runFrom d =
      match (d.scene.withoutLink slot).nextConnectionId? with
      | none => (.error .overflow, { d with scene := d.scene.withoutLink slot })
      | some id => (.ok id, { d with
          scene := (d.scene.withoutLink slot).withLink ⟨id, slot, target, sourceAnchor, targetAnchor⟩ }) := by
  simp only [connect, runFrom_bind, runFrom_get, runFrom_check, hcheck, runFrom_modify]
  rw [← Scene.withoutLink]
  cases (d.scene.withoutLink slot).nextConnectionId? <;> rfl

/-- A slot is linked, or it cannot be and nothing changes. Only that there is no id for the connection is
found after the old link is gone. -/
theorem runFrom_connect (d : Draft) (slot : Slot) (target : Uid) (sourceAnchor targetAnchor : Anchor)
    (hid : ((connect slot target sourceAnchor targetAnchor).runFrom d).1 ≠ .error .overflow) :
    (connect slot target sourceAnchor targetAnchor).runFrom d =
      settle d ((d.scene.connect slot target sourceAnchor targetAnchor).map
        fun (id, scene) ↦ (id, { d with scene })) := by
  cases hcheck : d.scene.checkLink slot target with
  | error e =>
      simp only [connect, runFrom_bind, runFrom_get, runFrom_check, Scene.connect, hcheck]
      rfl
  | ok _ =>
      rw [runFrom_connect_of_checkLink hcheck] at hid ⊢
      rw [Scene.connect_of_checkLink hcheck]
      cases hnext : (d.scene.withoutLink slot).nextConnectionId? with
      | none => exact absurd (by rw [hnext]) hid
      | some id => rfl

theorem runFrom_disconnect (d : Draft) (id : ConnectionId) :
    (disconnect id).runFrom d =
      settle d ((d.scene.disconnect id).map fun (c, scene) ↦ (c, { d with scene })) := by
  rw [disconnect, Scene.disconnect, runFrom_bind, runFrom_get]
  dsimp only
  cases d.scene.connection? id <;> rfl

end InPlace

end StoryGraph
