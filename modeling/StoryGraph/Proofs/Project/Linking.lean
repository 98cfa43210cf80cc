import StoryGraph.Proofs.Project.RoundTrip
import StoryGraph.Proofs.Project.Undo
import StoryGraph.Proofs.Scene.Numbering

/-!
# Whether there is an id for a link

Any slot can be linked to any bubble but the start, so long as the last id is not taken by a connection that
stays. An edit raises the ids of connections by one at most, so the last id is far off in a project that was
created, and in one that was loaded with low ids. But a file may bring any ids, the last one too. Then other
slots of that scene cannot be linked, and the attempt takes away what left the slot before.
-/

namespace StoryGraph

open InPlace

/-! ## Room for a connection -/

namespace Scene

/-- `s.HasRoom slot`: of the connections that stay when a slot is linked anew, none has the last id. -/
def HasRoom (s : Scene) (slot : Slot) : Prop :=
  ∀ c ∈ s.connections, c.slot ≠ slot → c.id.toNat + 1 < UInt32.size

variable {s : Scene} {slot : Slot} {n : Nat}

instance (s : Scene) (slot : Slot) : Decidable (s.HasRoom slot) :=
  inferInstanceAs (Decidable (∀ c ∈ s.connections, c.slot ≠ slot → c.id.toNat + 1 < UInt32.size))

theorem hasRoom_iff : s.HasRoom slot ↔ idBound (s.withoutLink slot).connections < UInt32.size := by
  rw [← Nat.le_sub_one_iff_lt (by decide), idBound_le_iff, HasRoom]
  simp only [mem_connections_withoutLink, and_imp, Nat.lt_sub_iff_add_lt]

theorem HasRoom.of_lt (h : ∀ c ∈ s.connections, c.id.toNat < n) (hn : n < UInt32.size) :
    s.HasRoom slot := fun c hc _ ↦ Nat.lt_of_le_of_lt (h c hc) hn

theorem nextConnectionId?_withoutLink_eq_none_iff :
    (s.withoutLink slot).nextConnectionId? = none ↔ ¬ s.HasRoom slot := by
  rw [nextConnectionId?_eq_none_iff, hasRoom_iff, Nat.not_lt]

end Scene

namespace InPlace

variable {d : Draft} {slot : Slot} {target : Uid}

/-- Where there is room a slot is linked, under an id that no other connection has. -/
theorem exists_runFrom_connect (hcheck : d.scene.checkLink slot target = .ok ())
    (hroom : d.scene.HasRoom slot) (sourceAnchor targetAnchor : Anchor) :
    ∃ id, (∀ c ∈ (d.scene.withoutLink slot).connections, c.id ≠ id) ∧
      (connect slot target sourceAnchor targetAnchor).runFrom d =
        (.ok id, { d with
          scene := (d.scene.withoutLink slot).withLink ⟨id, slot, target, sourceAnchor, targetAnchor⟩ }) := by
  obtain ⟨id, hid⟩ : ∃ id, (d.scene.withoutLink slot).nextConnectionId? = some id :=
    Option.ne_none_iff_exists'.mp fun hnone ↦ Scene.nextConnectionId?_withoutLink_eq_none_iff.mp hnone hroom
  refine ⟨id, fun c hc ↦ Scene.id_ne_of_toNat_eq_idBound (Scene.toNat_of_nextConnectionId? hid) hc, ?_⟩
  rw [runFrom_connect_of_checkLink hcheck, hid]

/-- Where there is none the slot has lost its link by the time this is found. -/
theorem runFrom_connect_of_not_hasRoom (hcheck : d.scene.checkLink slot target = .ok ())
    (hroom : ¬ d.scene.HasRoom slot) (sourceAnchor targetAnchor : Anchor) :
    (connect slot target sourceAnchor targetAnchor).runFrom d =
      (.error .overflow, { d with scene := d.scene.withoutLink slot }) := by
  have hid := Scene.nextConnectionId?_withoutLink_eq_none_iff.mpr hroom
  rw [runFrom_connect_of_checkLink hcheck, hid]

end InPlace

/-! ## Edits -/

open Scene

/-- An edit raises the ids of connections by one at most. -/
theorem SceneEdit.idBound_apply_le (d : Draft) (e : SceneEdit) :
    idBound (e.apply d).2.scene.connections ≤ idBound d.scene.connections + 1 := by
  obtain ⟨kept, hsub, heq, hmade⟩ := e.exists_leaves d
  have hkept : idBound kept ≤ idBound d.scene.connections :=
    idBound_le_iff.mpr fun c hc ↦ lt_idBound (hsub.subset hc)
  rw [heq]
  refine idBound_le_iff.mpr fun c hc ↦ ?_
  rcases List.mem_append.mp hc with hc | hc
  · exact Nat.lt_succ_of_lt (Nat.lt_of_lt_of_le (lt_idBound hc) hkept)
  · rw [(hmade c (Option.mem_toList.mp hc)).2]
    exact Nat.lt_succ_of_le hkept

namespace Project

/-- `p.IdsBelow n`: every connection of every scene has an id below a number. -/
def IdsBelow (p : Project) (n : Nat) : Prop := ∀ s ∈ p.scenes, ∀ c ∈ s.connections, c.id.toNat < n

theorem idsBelow_create (title author : String) : (create title author).IdsBelow 0 := by
  intro s hs c hc
  rw [List.mem_singleton.mp hs] at hc
  contradiction

variable {p p' : Project} {n : Nat}

namespace IdsBelow

theorem mono {m : Nat} (h : p.IdsBelow n) (hle : n ≤ m) : p.IdsBelow m :=
  fun s hs c hc ↦ Nat.lt_of_lt_of_le (h s hs c hc) hle

/-- The ids are those of connections that were there. -/
theorem of_subset (h : p.IdsBelow n)
    (hsub : ∀ s ∈ p'.scenes, s.connections = [] ∨ ∃ t ∈ p.scenes, s.connections = t.connections) :
    p'.IdsBelow n := by
  intro s hs c hc
  rcases hsub s hs with hnone | ⟨t, ht, heq⟩
  · rw [hnone] at hc
    contradiction
  · exact h t ht c (heq ▸ hc)

theorem of_perm (h : p.IdsBelow n) (hperm : p'.scenes.Perm p.scenes) : p'.IdsBelow n :=
  h.of_subset fun s hs ↦ .inr ⟨s, hperm.subset hs, rfl⟩

theorem renameScene (h : p.IdsBelow n) {old new : String} (hrename : p.renameScene old new = .ok p') :
    p'.IdsBelow n := by
  unfold Project.renameScene at hrename
  split at hrename
  · obtain rfl := Except.ok.inj hrename
    exact h
  · obtain ⟨-, hrename⟩ := of_check hrename
    obtain ⟨_, -, hrename⟩ := bind_eq_ok.mp hrename
    obtain ⟨_, -, hrename⟩ := bind_eq_ok.mp hrename
    obtain rfl := Except.ok.inj hrename
    refine h.of_subset fun s hs ↦ .inr ?_
    rcases mem_or_exists_of_mem_updateFirst hs with hs | ⟨t, ht, rfl⟩
    · exact ⟨s, hs, rfl⟩
    · exact ⟨t, List.mem_of_find?_eq_some ht, rfl⟩

theorem moveSceneUp (h : p.IdsBelow n) {name : String} (hmove : p.moveSceneUp name = .ok p') :
    p'.IdsBelow n := by
  obtain ⟨i, -, hmove⟩ := bind_eq_ok.mp hmove
  cases i with
  | zero =>
      obtain rfl := Except.ok.inj hmove
      exact h
  | succ i =>
      obtain rfl := Except.ok.inj hmove
      exact h.of_perm (swapAt_perm i p.scenes)

theorem moveSceneDown (h : p.IdsBelow n) {name : String} (hmove : p.moveSceneDown name = .ok p') :
    p'.IdsBelow n := by
  obtain ⟨i, -, hmove⟩ := bind_eq_ok.mp hmove
  obtain rfl := Except.ok.inj hmove
  exact h.of_perm (swapAt_perm i p.scenes)

theorem addScene (h : p.IdsBelow n) {name : String} {start : Uid}
    (hadd : p.addScene name = .ok (start, p')) : p'.IdsBelow n := by
  obtain ⟨-, -, pool, rfl, -⟩ := of_addScene hadd
  refine h.of_subset fun s hs ↦ ?_
  rcases List.mem_append.mp hs with hs | hs
  · exact .inr ⟨s, hs, rfl⟩
  · rw [List.mem_singleton.mp hs]
    exact .inl rfl

theorem removeScene (h : p.IdsBelow n) {name : String} {s : Scene}
    (hremove : p.removeScene name = .ok (s, p')) : p'.IdsBelow n := by
  obtain ⟨-, hremove⟩ := of_check hremove
  obtain ⟨_, -, hremove⟩ := bind_eq_ok.mp hremove
  obtain ⟨-, rfl⟩ := Prod.mk.inj (Except.ok.inj hremove)
  exact h.of_subset fun s hs ↦ .inr ⟨s, List.mem_of_mem_eraseP hs, rfl⟩

theorem editScene (h : p.IdsBelow n) (name : String) (e : SceneEdit) :
    (p.editScene name fun d ↦ e.apply d).2.IdsBelow (n + 1) := by
  unfold Project.editScene
  split
  · exact h.mono (Nat.le_succ n)
  · rename_i s hs
    intro t ht
    rcases mem_or_exists_of_mem_updateFirst ht with ht | ⟨-, -, rfl⟩
    · exact h.mono (Nat.le_succ n) t ht
    · have hbound : idBound s.connections ≤ n :=
        idBound_le_iff.mpr (h s (List.mem_of_find?_eq_some hs))
      exact idBound_le_iff.mp (Nat.le_trans (e.idBound_apply_le ⟨s, p.pool⟩) (Nat.succ_le_succ hbound))

theorem apply (h : p.IdsBelow n) (e : ProjectEdit) : (e.apply p).2.IdsBelow (n + 1) := by
  have hmono {p' : Project} (h' : p'.IdsBelow n) : p'.IdsBelow (n + 1) := h'.mono (Nat.le_succ n)
  let Below (p' : Project) : Prop := p'.IdsBelow (n + 1)
  cases e with
  | addScene name => exact of_attempt_map (P := Below) (hmono h) fun _ hok ↦ hmono (h.addScene hok)
  | renameScene old new => exact of_attempt (P := Below) (hmono h) fun _ hok ↦ hmono (h.renameScene hok)
  | moveSceneUp name => exact of_attempt (P := Below) (hmono h) fun _ hok ↦ hmono (h.moveSceneUp hok)
  | moveSceneDown name => exact of_attempt (P := Below) (hmono h) fun _ hok ↦ hmono (h.moveSceneDown hok)
  | removeScene name => exact of_attempt_map (P := Below) (hmono h) fun _ hok ↦ hmono (h.removeScene hok)
  | inScene name edit => exact h.editScene name edit

/-- Edits raise the ids of connections by one each at most. -/
theorem run (h : p.IdsBelow n) (es : List ProjectEdit) : (p.run es).IdsBelow (n + es.length) := by
  induction es generalizing p n with
  | nil => exact h
  | cons e es ih =>
      have hstep := h.apply e
      rw [Project.run_cons, List.length_cons]
      split
      · exact hstep.mono (by omega)
      · exact (ih hstep).mono (by omega)

end IdsBelow

/-! ## Linking -/

theorem WellFormed.checkLink_of_run (h : p.WellFormed) (es : List ProjectEdit) {name : String} {s : Scene}
    (hs : (p.run es).scene? name = some s) {slot : Slot} {target : Uid}
    (hslot : ∃ b ∈ s.bubbles, slot ∈ b.slots)
    (htarget : ∃ b ∈ s.bubbles, b.uid = target ∧ b.isStart = false) :
    s.checkLink slot target = .ok () := by
  have hwf := (h.run es).1.scenes s (List.mem_of_find?_eq_some hs)
  exact checkLink_eq_ok_iff.mpr ⟨hwf.hasSlot_iff.mpr hslot, hwf.isTarget_iff.mpr htarget⟩

/-- Whatever has been done to a project that was loaded, a slot of a bubble can be linked to a bubble that is
no start exactly if no connection that stays has the last id. The link then has an id that no other connection
of the scene has. If one has the last id, the slot has lost its link by the time this is found. There is room
so long as the ids that the project came with and the number of edits since do not reach the last id. -/
theorem connect_of_loaded {text : String} {p : Project} {r : LoadReport} (hload : ofText text = .ok (p, r))
    (es : List ProjectEdit) {name : String} {s : Scene} (hs : (p.run es).scene? name = some s)
    (slot : Slot) (target : Uid) (sourceAnchor targetAnchor : Anchor)
    (hslot : ∃ b ∈ s.bubbles, slot ∈ b.slots)
    (htarget : ∃ b ∈ s.bubbles, b.uid = target ∧ b.isStart = false) :
    let link := (inScene name (connect slot target sourceAnchor targetAnchor)).runFrom (p.run es)
    let replaceScene (s : Scene) := (p.run es).withDraft name ⟨s, (p.run es).pool⟩
    (s.HasRoom slot → ∃ id, (∀ c ∈ (s.withoutLink slot).connections, c.id ≠ id) ∧
      link = (.ok id, replaceScene
        ((s.withoutLink slot).withLink ⟨id, slot, target, sourceAnchor, targetAnchor⟩))) ∧
    (¬ s.HasRoom slot → link = (.error .overflow, replaceScene (s.withoutLink slot))) ∧
    ∀ n, p.IdsBelow n → n + es.length < UInt32.size → s.HasRoom slot := by
  dsimp only
  have hcheck := (wellFormed_of_ofText hload).checkLink_of_run es hs hslot htarget
  rw [runFrom_inScene hs]
  refine ⟨fun hroom ↦ ?_, fun hroom ↦ ?_, fun n hbelow hn ↦ ?_⟩
  · obtain ⟨id, hne, hrun⟩ :=
      exists_runFrom_connect (d := ⟨s, (p.run es).pool⟩) hcheck hroom sourceAnchor targetAnchor
    exact ⟨id, hne, by rw [hrun]⟩
  · rw [runFrom_connect_of_not_hasRoom (d := ⟨s, (p.run es).pool⟩) hcheck hroom]
  · exact .of_lt ((hbelow.run es) s (List.mem_of_find?_eq_some hs)) hn

/-- The start leads to a story by a connection with the last id, and the story leads on. -/
def lastIdScene : Scene :=
  ⟨startupName, [.create ⟨0⟩ .start, .create ⟨1⟩ (.story "here"), .create ⟨2⟩ (.story "there")],
    [⟨⟨4294967295⟩, ⟨⟨0⟩, .next⟩, ⟨1⟩, .south, .north⟩, ⟨⟨0⟩, ⟨⟨1⟩, .next⟩, ⟨2⟩, .south, .north⟩]⟩

def lastId : Project where
  title := "Last"
  author := ""
  scenes := [lastIdScene]
  vars := []
  pool := ((UidPool.empty.insert ⟨0⟩).insert ⟨1⟩).insert ⟨2⟩

theorem wellFormed_lastId : lastId.WellFormed where
  nodup_names := by decide
  scenes := by decide
  nodup_uids := by decide
  mem_pool _ := Iff.rfl

/-- A story is added, and the start is linked to it. -/
def firstLink : List ProjectEdit :=
  [.inScene startupName (.addBubble (.story "on")),
    .inScene startupName (.connect ⟨⟨0⟩, .next⟩ ⟨1⟩ .south .north)]

/-- The start can be linked anew. The story cannot, and stays without a link. Where a project is new there is
room behind its first link. -/
theorem connect_lastId :
    ofText lastId.toText = .ok (lastId, ⟨[]⟩) ∧
    (∃ id p', id ≠ ⟨0⟩ ∧
      (inScene startupName (connect ⟨⟨0⟩, .next⟩ ⟨2⟩ .south .north)).runFrom lastId = (.ok id, p')) ∧
    (∃ p', (inScene startupName (connect ⟨⟨1⟩, .next⟩ ⟨1⟩ .south .north)).runFrom lastId =
        (.error .overflow, p') ∧
      (p'.scene? startupName).map (·.connections) =
        some [⟨⟨4294967295⟩, ⟨⟨0⟩, .next⟩, ⟨1⟩, .south, .north⟩]) ∧
    ∃ s, ((create "Tale" "").run firstLink).scene? startupName = some s ∧ s.HasRoom ⟨⟨1⟩, .next⟩ := by
  have hload := ofText_toText_of_wellFormed wellFormed_lastId
  have hs : (lastId.run []).scene? startupName = some lastIdScene := rfl
  obtain ⟨hlinked, -, -⟩ :=
    connect_of_loaded hload [] hs ⟨⟨0⟩, .next⟩ ⟨2⟩ .south .north (by decide) (by decide)
  obtain ⟨-, hfailed, -⟩ :=
    connect_of_loaded hload [] hs ⟨⟨1⟩, .next⟩ ⟨1⟩ .south .north (by decide) (by decide)
  refine ⟨hload, ?_, ⟨_, hfailed (by decide), rfl⟩, ?_⟩
  · obtain ⟨id, hne, hrun⟩ := hlinked (by decide)
    have hkept : ⟨⟨0⟩, ⟨⟨1⟩, .next⟩, ⟨2⟩, .south, .north⟩ ∈
        (lastIdScene.withoutLink ⟨⟨0⟩, .next⟩).connections := by decide
    exact ⟨id, _, (hne _ hkept).symm, hrun⟩
  · obtain ⟨s, hs'⟩ : ∃ s, ((create "Tale" "").run firstLink).scene? startupName = some s := ⟨_, rfl⟩
    obtain ⟨-, -, hroom⟩ := connect_of_loaded (ofText_toText_of_wellFormed (wellFormed_create "Tale" ""))
      firstLink hs' ⟨⟨1⟩, .next⟩ ⟨1⟩ .south .north (by cases hs'; decide) (by cases hs'; decide)
    exact ⟨s, hs', hroom 0 (idsBelow_create _ _) (by decide)⟩

/-- Not every link is made in a project that was loaded, however few edits there have been. -/
theorem not_forall_linked :
    ¬ ∀ text p r es name s slot target sourceAnchor targetAnchor, ofText text = .ok (p, r) →
      es.length < UInt32.size / 2 → (p.run es).scene? name = some s → (∃ b ∈ s.bubbles, slot ∈ b.slots) →
      (∃ b ∈ s.bubbles, b.uid = target ∧ b.isStart = false) → ∃ id,
        ((inScene name (connect slot target sourceAnchor targetAnchor)).runFrom (p.run es)).1 = .ok id := by
  intro h
  have hload := ofText_toText_of_wellFormed wellFormed_lastId
  obtain ⟨id, hid⟩ := h _ lastId _ [] startupName _ ⟨⟨1⟩, .next⟩ ⟨1⟩ .south .north hload (by decide) rfl
    (by decide) (by decide)
  have hfail : ((inScene startupName (connect ⟨⟨1⟩, .next⟩ ⟨1⟩ .south .north)).runFrom lastId).1 =
      .error .overflow := by decide
  exact nomatch hid.symm.trans hfail

end Project

end StoryGraph
