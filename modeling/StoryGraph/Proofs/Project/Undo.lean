import StoryGraph.Proofs.Project.InPlace
import StoryGraph.Proofs.Scene.Undo

/-!
# What is added to a project can be taken away

Uids come back as soon as they have gone, but no connection stays behind that has to do with one. So what
has been added to a well-formed project under an old uid is linked to nothing, in no scene. And if it is
taken away at once, the project is what it was: its scenes, its variables and its pool.
-/

namespace StoryGraph

open InPlace

namespace Project

/-- `p.Unlinked u`: no connection of any scene leaves a uid or ends at it. -/
def Unlinked (p : Project) (u : Uid) : Prop :=
  ∀ s ∈ p.scenes, ∀ c ∈ s.connections, c.source ≠ u ∧ c.target ≠ u

/-- The project with a draft in the place of a scene. -/
def withDraft (p : Project) (name : String) (d : Draft) : Project :=
  { p.updateScene name fun _ ↦ d.scene with pool := d.pool }

variable {p p' : Project} {name : String} {s : Scene} {d : Draft} {u : Uid}

/-- The draft of a scene of a well-formed project is sound. -/
theorem WellFormed.exists_sound (h : p.WellFormed) (hs : p.scene? name = some s) :
    ∃ others, Draft.Sound name others ⟨s, p.pool⟩ := by
  obtain ⟨rfl, rest, hperm, -⟩ := exists_perm_of_scene? hs
  exact ⟨rest.flatMap (·.uids), (h.of_perm_cons hperm).2⟩

/-! ## Uids that are free -/

/-- A free uid is linked to nothing. -/
theorem WellFormed.unlinked (h : p.WellFormed) (hu : u ∉ p.pool) : p.Unlinked u := by
  intro s hs c hc
  obtain ⟨hsource, htarget⟩ := (h.scenes s hs).mem_uids_of_mem_connections hc
  have hused : ∀ v ∈ s.uids, v ∈ p.pool := fun v hv ↦
    (h.mem_pool v).mpr (List.mem_flatMap.mpr ⟨s, hs, hv⟩)
  constructor
  · rintro rfl
    exact hu (hused _ hsource)
  · rintro rfl
    exact hu (hused _ htarget)

theorem Unlinked.withDraft (h : p.Unlinked u) (hs : p.scene? name = some s)
    (hconnections : d.scene.connections = s.connections) : (p.withDraft name d).Unlinked u := by
  intro t ht
  rcases mem_or_exists_of_mem_updateFirst ht with ht | ⟨-, -, rfl⟩
  · exact h t ht
  · rw [hconnections]
    exact h s (List.mem_of_find?_eq_some hs)

theorem Unlinked.append_create (h : p.Unlinked u) (name : String) (start : Uid) (pool : UidPool) :
    Unlinked { p with scenes := p.scenes ++ [.create name start], pool } u := by
  intro t ht
  rcases List.mem_append.mp ht with ht | ht
  · exact h t ht
  · rw [List.mem_singleton.mp ht]
    exact fun c hc ↦ nomatch hc

/-! ## Scenes -/

/-- A scene that has been added can be removed again, if it is not the startup scene and no variable was
its own before. -/
theorem removeScene_addScene (hadd : p.addScene name = .ok (u, p'))
    (hname : name ≠ startupName) (hvars : ∀ v ∈ p.vars, v.owner ≠ some name) :
    p'.removeScene name = .ok (.create name u, p) := by
  obtain ⟨hnew, hfree, pool, rfl, hpool⟩ := of_addScene hadd
  have hscenes : ∀ t ∈ p.scenes, ¬ decide (t.name = name) := fun t ht heq ↦
    hnew (List.mem_map.mpr ⟨t, ht, of_decide_eq_true heq⟩)
  obtain ⟨hfind, herase⟩ :=
    find?_append_singleton (a := Scene.create name u) hscenes (decide_eq_true rfl)
  have hkept : p.vars.filter (·.owner ≠ some name) = p.vars :=
    List.filter_eq_self.mpr fun v hv ↦ decide_eq_true (hvars v hv)
  have hback : pool.eraseAll [u] = p.pool :=
    UidPool.eraseAll_eq_of_mem_iff (by simpa using hfree) (by simpa using hpool)
  rw [Project.removeScene, if_neg hname, scene, scene?, hfind]
  show Except.ok (_, (⟨_, _, _, _, pool.eraseAll [u]⟩ : Project)) = _
  rw [herase, hkept, hback]

end Project

/-! ## Edits within a scene -/

namespace InPlace

variable {p p' : Project} {name : String} {s : Scene} {α β : Type} {edit : InPlace Draft α}
  {undo : InPlace Draft β} {a : α} {b : β}

/-- An edit of a scene is one of its draft, which goes back into the project. -/
theorem runFrom_inScene (hs : p.scene? name = some s) (edit : InPlace Draft α) :
    (inScene name edit).runFrom p =
      ((edit.runFrom ⟨s, p.pool⟩).1, p.withDraft name (edit.runFrom ⟨s, p.pool⟩).2) := by
  rw [inScene, runFrom_ofFun, Project.editScene, hs]
  rfl

/-- An edit of a scene that succeeds has succeeded on a draft of it, which is then in its place. -/
theorem of_runFrom_inScene (h : (inScene name edit).runFrom p = (.ok a, p')) :
    ∃ s d, p.scene? name = some s ∧ edit.runFrom ⟨s, p.pool⟩ = (.ok a, d) ∧ p' = p.withDraft name d := by
  cases hs : p.scene? name with
  | none => simp [inScene, Project.editScene, hs] at h
  | some s =>
      obtain ⟨hresult, rfl⟩ := Prod.mk.inj ((runFrom_inScene hs edit).symm.trans h)
      exact ⟨s, _, rfl, Prod.ext hresult rfl, rfl⟩

/-- What takes an edit of a draft back takes the edit of the project back. -/
theorem runFrom_inScene_back {d : Draft} (hs : p.scene? name = some s) (hname : d.scene.name = name)
    (hback : undo.runFrom d = (.ok b, ⟨s, p.pool⟩)) :
    (inScene name undo).runFrom (p.withDraft name d) = (.ok b, p) := by
  have hname' : ∀ t : Scene, decide (t.name = name) → decide (d.scene.name = name) := fun _ _ ↦
    decide_eq_true hname
  have hscene : (p.withDraft name d).scene? name = some d.scene := by
    rw [Project.scene?, Project.withDraft, Project.updateScene]
    dsimp only
    rw [find?_updateFirst hname', ← Project.scene?, hs, Option.map_some]
  have hscenes : updateFirst (·.name = name) (fun _ ↦ s)
      (updateFirst (·.name = name) (fun _ ↦ d.scene) p.scenes) = p.scenes := by
    rw [updateFirst_updateFirst hname']
    exact updateFirst_eq_self fun t ht ↦ Option.some.inj (hs.symm.trans ht)
  rw [runFrom_inScene hscene, show undo.runFrom ⟨d.scene, (p.withDraft name d).pool⟩ = _ from hback]
  dsimp only [Project.withDraft, Project.updateScene]
  rw [hscenes]

/-! ### Each of them -/

variable (h : p.WellFormed)

include h

/-- A bubble that has been added to a scene. -/
theorem unlinked_and_removeBubble {d : Draft} {bubble : Bubble} (hs : p.scene? name = some s)
    (hstart : bubble.isStart = false) (hadd : Draft.Adds ⟨s, p.pool⟩ bubble d) :
    (∀ v ∈ bubble.uids, (p.withDraft name d).Unlinked v) ∧
      (inScene name (removeBubble bubble.uid)).runFrom (p.withDraft name d) = (.ok bubble, p) := by
  obtain ⟨others, hsound⟩ := h.exists_sound hs
  constructor
  · intro v hv
    exact (h.unlinked (hadd.free v hv)).withDraft hs (by rw [hadd.scene_eq])
  · refine runFrom_inScene_back hs ?_ ?_
    · rw [hadd.scene_eq]
      exact hsound.name_eq
    · rw [runFrom_removeBubble, hsound.removeBubble_of_adds hstart hadd]
      rfl

theorem unlinked_and_removeBubble_of_addBubble {kind : BubbleKind} {u : Uid}
    (hrun : (inScene name (addBubble kind)).runFrom p = (.ok u, p')) :
    (∀ v ∈ (Bubble.create u kind).uids, p'.Unlinked v) ∧
      (inScene name (removeBubble u)).runFrom p' = (.ok (.create u kind), p) := by
  obtain ⟨s, d, hs, hedit, rfl⟩ := of_runFrom_inScene hrun
  rw [runFrom_addBubble] at hedit
  obtain ⟨hkind, hadd⟩ := Draft.of_addBubble (of_settle_eq_ok hedit)
  exact unlinked_and_removeBubble h hs (Bubble.isStart_create hkind) hadd

theorem unlinked_and_removeBubble_of_insertBubble {bubble : Bubble}
    (hrun : (inScene name (insertBubble bubble)).runFrom p = (.ok (), p')) :
    (∀ v ∈ bubble.uids, p'.Unlinked v) ∧
      (inScene name (removeBubble bubble.uid)).runFrom p' = (.ok bubble, p) := by
  obtain ⟨s, d, hs, hedit, rfl⟩ := of_runFrom_inScene hrun
  obtain ⟨others, hsound⟩ := h.exists_sound hs
  rw [runFrom_insertBubble] at hedit
  obtain ⟨d, hinsert, heq⟩ := of_settle_map_eq_ok hedit
  obtain ⟨-, rfl⟩ := Prod.mk.inj heq
  exact unlinked_and_removeBubble h hs (hsound.isStart_eq_false_of_insertBubble hinsert)
    (Draft.of_insertBubble hinsert).2

theorem unlinked_and_removeOption {choice u : Uid} {text : String}
    (hrun : (inScene name (addOption choice text)).runFrom p = (.ok u, p')) :
    p'.Unlinked u ∧ (inScene name (removeOption u)).runFrom p' = (.ok ⟨u, text⟩, p) := by
  obtain ⟨s, d, hs, hedit, rfl⟩ := of_runFrom_inScene hrun
  obtain ⟨others, hsound⟩ := h.exists_sound hs
  rw [runFrom_addOption] at hedit
  have hadd := of_settle_eq_ok hedit
  obtain ⟨-, -, -, -, hfree, hscene, -⟩ := Draft.of_addOption hadd
  constructor
  · exact (h.unlinked hfree).withDraft hs (by rw [hscene]; rfl)
  · exact runFrom_inScene_back hs (hsound.addOption hadd).name_eq (hsound.removeOption_addOption hadd)

omit h in
theorem runFrom_disconnect_of_connect {slot : Slot} {target : Uid} {sourceAnchor targetAnchor : Anchor}
    {id : ConnectionId} (hs : p.scene? name = some s) (hfree : s.link? slot = none)
    (hrun : (inScene name (connect slot target sourceAnchor targetAnchor)).runFrom p = (.ok id, p')) :
    (inScene name (disconnect id)).runFrom p' =
      (.ok ⟨id, slot, target, sourceAnchor, targetAnchor⟩, p) := by
  obtain ⟨s', d, hs', hedit, rfl⟩ := of_runFrom_inScene hrun
  obtain rfl := Option.some.inj (hs.symm.trans hs')
  rw [runFrom_connect _ _ _ _ _ (by simp [hedit])] at hedit
  obtain ⟨⟨id', scene⟩, hconnect, heq⟩ := of_settle_map_eq_ok hedit
  obtain ⟨rfl, rfl⟩ := Prod.mk.inj heq
  obtain ⟨-, -, -, hscene⟩ := Scene.of_connect hconnect
  refine runFrom_inScene_back hs ?_ ?_
  · rw [hscene]
    exact (Project.exists_perm_of_scene? hs).1
  · rw [runFrom_disconnect, Scene.disconnect_connect hfree hconnect]
    rfl

theorem unlinked_and_removeScene {u : Uid} (hrun : (addScene name).runFrom p = (.ok u, p')) :
    p'.Unlinked u ∧ (name ≠ Project.startupName → (∀ v ∈ p.vars, v.owner ≠ some name) →
      (removeScene name).runFrom p' = (.ok (.create name u), p)) := by
  rw [runFrom_addScene] at hrun
  have hadd := of_settle_eq_ok hrun
  obtain ⟨-, hfree, pool, rfl, -⟩ := Project.of_addScene hadd
  refine ⟨(h.unlinked hfree).append_create name u pool, ?_⟩
  intro hname hvars
  rw [runFrom_removeScene, Project.removeScene_addScene hadd hname hvars]
  rfl

end InPlace

namespace Project

/-- Whatever is added to a well-formed project, no connection leaves it or ends at it, also where it gets a
uid that something else had before. If it is taken away at once, the project is what it was, and so it is if
a connection is taken away that has been made from a free slot. A scene must not be the startup scene for
that, and not have had variables before. -/
theorem WellFormed.unlinked_and_back (h : p.WellFormed) (name : String) :
    (∀ kind u p', (inScene name (addBubble kind)).runFrom p = (.ok u, p') →
      (∀ v ∈ (Bubble.create u kind).uids, p'.Unlinked v) ∧
        (inScene name (removeBubble u)).runFrom p' = (.ok (.create u kind), p)) ∧
    (∀ b p', (inScene name (insertBubble b)).runFrom p = (.ok (), p') →
      (∀ v ∈ b.uids, p'.Unlinked v) ∧ (inScene name (removeBubble b.uid)).runFrom p' = (.ok b, p)) ∧
    (∀ choice text u p', (inScene name (addOption choice text)).runFrom p = (.ok u, p') →
      p'.Unlinked u ∧ (inScene name (removeOption u)).runFrom p' = (.ok ⟨u, text⟩, p)) ∧
    (∀ s slot target sourceAnchor targetAnchor id p', p.scene? name = some s → s.link? slot = none →
      (inScene name (connect slot target sourceAnchor targetAnchor)).runFrom p = (.ok id, p') →
      (inScene name (disconnect id)).runFrom p' =
        (.ok ⟨id, slot, target, sourceAnchor, targetAnchor⟩, p)) ∧
    ∀ u p', (InPlace.addScene name).runFrom p = (.ok u, p') →
      p'.Unlinked u ∧ (name ≠ startupName → (∀ v ∈ p.vars, v.owner ≠ some name) →
        (InPlace.removeScene name).runFrom p' = (.ok (.create name u), p)) :=
  ⟨fun _ _ _ ↦ unlinked_and_removeBubble_of_addBubble h, fun _ _ ↦ unlinked_and_removeBubble_of_insertBubble h,
    fun _ _ _ _ ↦ unlinked_and_removeOption h, fun _ _ _ _ _ _ _ ↦ runFrom_disconnect_of_connect,
    fun _ _ ↦ unlinked_and_removeScene h⟩

/-- A story that three links have to do with is removed, and with it go the links. -/
def clearing : Project :=
  (create "Tale" "").run
    [.inScene startupName (.addBubble (.story "gone")), .inScene startupName (.addBubble (.story "kept")),
      .inScene startupName (.connect ⟨⟨0⟩, .next⟩ ⟨1⟩ .south .north),
      .inScene startupName (.connect ⟨⟨1⟩, .next⟩ ⟨2⟩ .south .north),
      .inScene startupName (.connect ⟨⟨2⟩, .next⟩ ⟨1⟩ .south .north),
      .inScene startupName (.removeBubble ⟨1⟩)]

/-- What comes next gets the uid of that story, but not its links. -/
theorem unlinked_and_back_clearing :
    clearing.WellFormed ∧
      ∃ p', (inScene startupName (addBubble (.story "new"))).runFrom clearing = (.ok ⟨1⟩, p') ∧
        p'.Unlinked ⟨1⟩ ∧
        (inScene startupName (removeBubble ⟨1⟩)).runFrom p' =
          (.ok (.create ⟨1⟩ (.story "new")), clearing) := by
  have hwf : clearing.WellFormed := ((wellFormed_create _ _).run _).1
  have hadd : ((inScene startupName (addBubble (.story "new"))).runFrom clearing).1 = .ok ⟨1⟩ := by
    decide +kernel
  obtain ⟨p', hrun⟩ := exists_of_fst_eq hadd
  obtain ⟨hunlinked, hback⟩ := (hwf.unlinked_and_back startupName).1 (.story "new") ⟨1⟩ p' hrun
  exact ⟨hwf, p', hrun, hunlinked ⟨1⟩ (Bubble.uid_mem_uids _), hback⟩

end Project

end StoryGraph
