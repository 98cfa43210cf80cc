import StoryGraph.Project.Edit
import StoryGraph.Proofs.Project.Load

/-!
# Edits keep projects well-formed

Whatever is done to a project that was created or loaded, and whether it succeeds or not, the project
stays well-formed, and once it has a startup scene it keeps one. An edit concerns one scene, and the rest
stay as they are; so it is enough that the draft of that scene is sound beside the others, before and
after.
-/

namespace StoryGraph

/-- An edit of a project. -/
inductive ProjectEdit where
  | addScene (name : String)
  | renameScene (old new : String)
  | moveSceneUp (name : String)
  | moveSceneDown (name : String)
  | removeScene (name : String)
  /-- An edit within a scene, with the pool of the project. -/
  | inScene (name : String) (edit : SceneEdit)
deriving DecidableEq, Repr

namespace ProjectEdit

def apply (p : Project) : ProjectEdit → Except Error Unit × Project
  | .addScene name => attempt p ((p.addScene name).map (·.2))
  | .renameScene old new => attempt p (p.renameScene old new)
  | .moveSceneUp name => attempt p (p.moveSceneUp name)
  | .moveSceneDown name => attempt p (p.moveSceneDown name)
  | .removeScene name => attempt p ((p.removeScene name).map (·.2))
  | .inScene name edit => p.editScene name fun d ↦ edit.apply d

/-- Whether an edit found no id for a connection. -/
def exhausts : ProjectEdit → Except Error Unit → Bool
  | .inScene _ (.connect ..), .error .overflow => true
  | _, _ => false

end ProjectEdit

/-- What edits leave behind, one after the other. They go on when one of them fails, and end where there
is no id for a connection. -/
def Project.run (p : Project) : List ProjectEdit → Project
  | [] => p
  | e :: es =>
      let (result, p) := e.apply p
      if e.exhausts result then p else p.run es

theorem Project.run_cons (p : Project) (e : ProjectEdit) (es : List ProjectEdit) :
    p.run (e :: es) =
      if e.exhausts (e.apply p).1 then (e.apply p).2 else (e.apply p).2.run es := rfl

/-! ## One scene and the rest -/

namespace Project

variable {p p' : Project}

/-- `Apart rest name`: scenes are fine for a project, and none has a name. -/
structure Apart (rest : List Scene) (name : String) : Prop where
  nodup_names : (rest.map (·.name)).Nodup
  not_mem_names : name ∉ rest.map (·.name)
  scenes : ∀ s ∈ rest, s.WellFormed
  nodup_uids : (rest.flatMap (·.uids)).Nodup

theorem sceneNames_perm {ss : List Scene} (hperm : p.scenes.Perm ss) :
    p.sceneNames.Perm (ss.map (·.name)) := hperm.map _

theorem uids_perm {ss : List Scene} (hperm : p.scenes.Perm ss) :
    p.uids.Perm (ss.flatMap (·.uids)) := hperm.flatMap_right _

/-- A well-formed project consists of a sound draft and the rest. -/
theorem WellFormed.of_perm_cons (h : p.WellFormed) {s : Scene} {rest : List Scene}
    (hperm : p.scenes.Perm (s :: rest)) :
    Apart rest s.name ∧ Draft.Sound s.name (rest.flatMap (·.uids)) ⟨s, p.pool⟩ := by
  have hnames := (sceneNames_perm hperm).nodup_iff.mp h.nodup_names
  have huids := (uids_perm hperm).nodup_iff.mp h.nodup_uids
  rw [List.flatMap_cons] at huids
  obtain ⟨-, hrest, hdisj⟩ := List.nodup_append'.mp huids
  obtain ⟨hname, hnames⟩ := List.nodup_cons.mp hnames
  have hscenes : ∀ t ∈ s :: rest, t.WellFormed := fun t ht ↦ h.scenes t (hperm.mem_iff.mpr ht)
  obtain ⟨hs, hscenes⟩ := List.forall_mem_cons.mp hscenes
  constructor
  · exact ⟨hnames, hname, hscenes, hrest⟩
  · refine ⟨rfl, hs, fun u hu hu' ↦ hdisj hu hu', ?_⟩
    intro u
    rw [h.mem_pool, (uids_perm hperm).mem_iff, List.flatMap_cons, List.mem_append]

/-- A sound draft and the rest are a well-formed project. -/
theorem Apart.wellFormed {s : Scene} {rest : List Scene} {name : String} (h : Apart rest name)
    (hsound : Draft.Sound name (rest.flatMap (·.uids)) ⟨s, p.pool⟩)
    (hperm : p.scenes.Perm (s :: rest)) : p.WellFormed := by
  constructor
  · rw [(sceneNames_perm hperm).nodup_iff, List.map_cons, List.nodup_cons]
    exact ⟨hsound.name_eq ▸ h.not_mem_names, h.nodup_names⟩
  · intro t ht
    rcases List.mem_cons.mp (hperm.mem_iff.mp ht) with rfl | ht
    · exact hsound.wellFormed
    · exact h.scenes t ht
  · rw [(uids_perm hperm).nodup_iff, List.flatMap_cons, List.nodup_append']
    refine ⟨hsound.wellFormed.nodup_uids, h.nodup_uids, ?_⟩
    intro u hu hu'
    exact hsound.not_mem_others u hu hu'
  · intro u
    rw [hsound.mem_pool, (uids_perm hperm).mem_iff, List.flatMap_cons, List.mem_append]

theorem exists_perm_of_scene? {name : String} {s : Scene} (h : p.scene? name = some s) :
    s.name = name ∧ ∃ rest, p.scenes.Perm (s :: rest) ∧
      (p.scenes.eraseP (·.name = name)).Perm rest ∧
      ∀ f, (p.updateScene name f).scenes.Perm (f s :: rest) :=
  ⟨by simpa using List.find?_some h, exists_perm_of_find? h⟩

theorem not_mem_sceneNames_of_requireNewName {name : String} (h : p.requireNewName name = .ok ()) :
    name ∉ p.sceneNames := by
  unfold requireNewName at h
  split at h
  · contradiction
  · rename_i hnew
    rintro hmem
    obtain ⟨s, hs, rfl⟩ := List.mem_map.mp hmem
    exact hnew (List.find?_isSome.mpr ⟨s, hs, by simp⟩)

theorem scene?_of_scene {name : String} {s : Scene} (h : p.scene name = .ok s) :
    p.scene? name = some s := by
  unfold scene at h
  split at h
  · obtain rfl := Except.ok.inj h
    assumption
  · contradiction

theorem swapAt_perm {α : Type} (i : Nat) (l : List α) : (swapAt i l).Perm l := by
  induction i generalizing l with
  | zero =>
      match l with
      | [] | [_] => exact .refl _
      | x :: y :: rest => exact .swap x y rest
  | succ i ih =>
      match l with
      | [] => exact .refl _
      | x :: rest => exact (ih rest).cons x

/-- A scene is added behind the others under a new name, and its start gets a uid that was free. -/
theorem of_addScene {name : String} {start : Uid} (hadd : p.addScene name = .ok (start, p')) :
    name ∉ p.sceneNames ∧ start ∉ p.pool ∧
      ∃ pool, p' = { p with scenes := p.scenes ++ [.create name start], pool } ∧
        ∀ u, u ∈ pool ↔ u = start ∨ u ∈ p.pool := by
  obtain ⟨_, hnew, hadd⟩ := bind_eq_ok.mp hadd
  obtain ⟨⟨uid, pool⟩, hallocate, hadd⟩ := bind_eq_ok.mp hadd
  obtain ⟨rfl, rfl⟩ := Prod.mk.inj (Except.ok.inj hadd)
  obtain ⟨hfree, hpool⟩ := UidPool.of_allocate hallocate
  exact ⟨not_mem_sceneNames_of_requireNewName hnew, hfree, pool, rfl, hpool⟩

/-! ## Each edit -/

/-- `Kept p p'`: a project is well-formed, and has a startup scene if another has one. -/
def Kept (p p' : Project) : Prop :=
  p'.WellFormed ∧ (startupName ∈ p.sceneNames → startupName ∈ p'.sceneNames)

theorem Kept.of_perm (h : p.WellFormed) (hperm : p'.scenes.Perm p.scenes) (hpool : p'.pool = p.pool) :
    Kept p p' := by
  constructor
  · constructor
    · exact (sceneNames_perm hperm).nodup_iff.mpr h.nodup_names
    · intro s hs
      exact h.scenes s (hperm.mem_iff.mp hs)
    · exact (uids_perm hperm).nodup_iff.mpr h.nodup_uids
    · intro u
      rw [hpool, h.mem_pool]
      exact (uids_perm hperm).mem_iff.symm
  · intro hstartup
    exact (sceneNames_perm hperm).mem_iff.mpr hstartup

namespace WellFormed

variable (h : p.WellFormed)

include h

theorem addScene {name : String} {start : Uid} (hadd : p.addScene name = .ok (start, p')) :
    Kept p p' := by
  obtain ⟨hnew, hfree, pool, rfl, hpool⟩ := of_addScene hadd
  have huids : (Scene.create name start).uids = [start] := rfl
  have hapart : Apart p.scenes name :=
    ⟨h.nodup_names, hnew, h.scenes, h.nodup_uids⟩
  have hsound : Draft.Sound name p.uids ⟨.create name start, pool⟩ := by
    refine ⟨rfl, Scene.wellFormed_create name start, ?_, ?_⟩
    · simpa [huids, ← h.mem_pool] using hfree
    · intro u
      rw [hpool, huids, List.mem_singleton, h.mem_pool]
  refine ⟨hapart.wellFormed hsound List.perm_append_comm, ?_⟩
  intro hstartup
  obtain ⟨s, hs, hname⟩ := List.mem_map.mp hstartup
  exact List.mem_map.mpr ⟨s, List.mem_append_left _ hs, hname⟩

theorem renameScene {old new : String} (hrename : p.renameScene old new = .ok p') : Kept p p' := by
  unfold Project.renameScene at hrename
  split at hrename
  · obtain rfl := Except.ok.inj hrename
    exact ⟨h, id⟩
  · split at hrename
    · contradiction
    · rename_i hold
      obtain ⟨_, hnew, hrename⟩ := bind_eq_ok.mp hrename
      obtain ⟨s, hs, hrename⟩ := bind_eq_ok.mp hrename
      obtain rfl := Except.ok.inj hrename
      obtain ⟨rfl, rest, hperm, -, hupdate⟩ := exists_perm_of_scene? (scene?_of_scene hs)
      obtain ⟨hapart, hsound⟩ := h.of_perm_cons hperm
      have hnames : p.sceneNames.Perm (s.name :: rest.map (·.name)) := sceneNames_perm hperm
      have hapart' : Apart rest new := by
        refine ⟨hapart.nodup_names, ?_, hapart.scenes, hapart.nodup_uids⟩
        intro hmem
        apply not_mem_sceneNames_of_requireNewName hnew
        exact hnames.mem_iff.mpr (List.mem_cons_of_mem _ hmem)
      have hsound' : Draft.Sound new (rest.flatMap (·.uids)) ⟨{ s with name := new }, p.pool⟩ := by
        refine ⟨rfl, ?_, hsound.not_mem_others, hsound.mem_pool⟩
        have hwf := hsound.wellFormed
        exact ⟨hwf.start_unique, hwf.nodup_uids, hwf.resolves, hwf.nodup_ids, hwf.nodup_slots⟩
      have hperm' := hupdate fun s ↦ { s with name := new }
      refine ⟨hapart'.wellFormed hsound' hperm', ?_⟩
      intro hstartup
      -- the scene that is renamed is not the startup scene, so that one is among the rest
      rcases List.mem_cons.mp (hnames.mem_iff.mp hstartup) with heq | hrest
      · exact absurd heq.symm hold
      · exact (sceneNames_perm hperm').mem_iff.mpr (List.mem_cons_of_mem _ hrest)

theorem moveSceneUp {name : String} (hmove : p.moveSceneUp name = .ok p') : Kept p p' := by
  obtain ⟨i, -, hmove⟩ := bind_eq_ok.mp hmove
  cases i with
  | zero =>
      obtain rfl := Except.ok.inj hmove
      exact ⟨h, id⟩
  | succ i =>
      obtain rfl := Except.ok.inj hmove
      exact .of_perm h (swapAt_perm i p.scenes) rfl

theorem moveSceneDown {name : String} (hmove : p.moveSceneDown name = .ok p') : Kept p p' := by
  obtain ⟨i, -, hmove⟩ := bind_eq_ok.mp hmove
  obtain rfl := Except.ok.inj hmove
  exact .of_perm h (swapAt_perm i p.scenes) rfl

theorem removeScene {name : String} {s : Scene} (hremove : p.removeScene name = .ok (s, p')) :
    Kept p p' := by
  unfold Project.removeScene at hremove
  split at hremove
  · contradiction
  · rename_i hname
    obtain ⟨t, ht, hremove⟩ := bind_eq_ok.mp hremove
    obtain ⟨rfl, rfl⟩ := Prod.mk.inj (Except.ok.inj hremove)
    obtain ⟨rfl, rest, hperm, herase, -⟩ := exists_perm_of_scene? (scene?_of_scene ht)
    obtain ⟨hapart, hsound⟩ := h.of_perm_cons hperm
    constructor
    · constructor
      · exact (sceneNames_perm herase).nodup_iff.mpr hapart.nodup_names
      · intro s hs
        exact hapart.scenes s (herase.mem_iff.mp hs)
      · exact (uids_perm herase).nodup_iff.mpr hapart.nodup_uids
      · intro u
        rw [(uids_perm herase).mem_iff, UidPool.mem_eraseAll, hsound.mem_pool]
        have hdisj : u ∈ t.uids → u ∉ rest.flatMap (·.uids) := hsound.not_mem_others u
        tauto
    · intro hstartup
      rcases List.mem_cons.mp ((sceneNames_perm hperm).mem_iff.mp hstartup) with heq | hrest
      · exact absurd heq.symm hname
      · exact (sceneNames_perm herase).mem_iff.mpr hrest

theorem editScene (name : String) (e : SceneEdit) : Kept p (p.editScene name fun d ↦ e.apply d).2 := by
  unfold Project.editScene
  split
  · exact ⟨h, id⟩
  · rename_i s hs
    obtain ⟨rfl, rest, hperm, -, hupdate⟩ := exists_perm_of_scene? hs
    obtain ⟨hapart, hsound⟩ := h.of_perm_cons hperm
    have hsound' := hsound.apply e
    have hperm' := hupdate fun _ ↦ (e.apply ⟨s, p.pool⟩).2.scene
    refine ⟨hapart.wellFormed hsound' hperm', ?_⟩
    intro hstartup
    apply (sceneNames_perm hperm').mem_iff.mpr
    rw [List.map_cons, hsound'.name_eq]
    exact (sceneNames_perm hperm).mem_iff.mp hstartup

/-- A well-formed project is kept by any edit, whether it succeeds or fails. -/
theorem apply (e : ProjectEdit) : Kept p (e.apply p).2 := by
  have hsame : Kept p p := ⟨h, id⟩
  cases e with
  | addScene name => exact of_attempt_map hsame fun _ hok ↦ h.addScene hok
  | renameScene old new => exact of_attempt hsame fun _ hok ↦ h.renameScene hok
  | moveSceneUp name => exact of_attempt hsame fun _ hok ↦ h.moveSceneUp hok
  | moveSceneDown name => exact of_attempt hsame fun _ hok ↦ h.moveSceneDown hok
  | removeScene name => exact of_attempt_map hsame fun _ hok ↦ h.removeScene hok
  | inScene name edit => exact h.editScene name edit

/-- A well-formed project is kept by any edits in any order. -/
theorem run (es : List ProjectEdit) : Kept p (p.run es) := by
  induction es generalizing p with
  | nil => exact ⟨h, id⟩
  | cons e es ih =>
      have hstep := h.apply e
      rw [Project.run_cons]
      split
      · exact hstep
      · obtain ⟨hwf, hstartup⟩ := ih hstep.1
        refine ⟨hwf, ?_⟩
        intro hmem
        exact hstartup (hstep.2 hmem)

end WellFormed

/-- Edits that come after others start from what those leave behind, or there are none of them left. -/
theorem exists_run_append (p : Project) (es es' : List ProjectEdit) :
    ∃ es'', p.run (es ++ es') = (p.run es).run es'' := by
  induction es generalizing p with
  | nil => exact ⟨es', rfl⟩
  | cons e es ih =>
      rw [List.cons_append, run_cons, run_cons]
      split
      · exact ⟨[], rfl⟩
      · exact ih _

/-- Whatever is done to a project that was created or loaded, its scenes have different names and one
start each, no uid is taken twice, exactly the uids that are taken are in use, every connection leads
from a slot of a bubble to a bubble other than the start, no two connections of a scene have one id or
leave one slot, and a startup scene stays once there is one. -/
theorem wellFormed_run_of_created_or_loaded
    (hp : (∃ title author, p = create title author) ∨ ∃ text r, ofText text = .ok (p, r))
    (es : List ProjectEdit) :
    (p.run es).WellFormed ∧
      (∀ s ∈ (p.run es).scenes, ∀ c ∈ s.connections, (∃ b ∈ s.bubbles, c.slot ∈ b.slots) ∧
        ∃ b ∈ s.bubbles, b.uid = c.target ∧ b.isStart = false) ∧
      ∀ es', startupName ∈ (p.run es).sceneNames → startupName ∈ (p.run (es ++ es')).sceneNames := by
  have h : p.WellFormed := by
    rcases hp with ⟨title, author, rfl⟩ | ⟨text, r, hload⟩
    · exact wellFormed_create title author
    · exact wellFormed_of_ofText hload
  have hrun : (p.run es).WellFormed := (h.run es).1
  refine ⟨hrun, ?_, ?_⟩
  · intro s hs c hc
    exact (hrun.scenes s hs).exists_link hc
  · intro es' hstartup
    obtain ⟨es'', heq⟩ := p.exists_run_append es es'
    rw [heq]
    exact (hrun.run es'').2 hstartup

/-- Edits that succeed and edits that fail: the startup scene is neither removed nor renamed. -/
def firstEdits : List ProjectEdit :=
  [.addScene "hall", .inScene startupName (.addBubble (.story "Once")),
    .inScene startupName (.connect ⟨⟨0⟩, .next⟩ ⟨2⟩ .east .west), .removeScene startupName,
    .renameScene startupName "attic", .renameScene "hall" "attic"]

theorem wellFormed_run_firstEdits :
    ((create "Tale" "").run firstEdits).sceneNames = [startupName, "attic"] ∧
      ((create "Tale" "").run firstEdits).WellFormed ∧
      ∀ es, startupName ∈ ((create "Tale" "").run (firstEdits ++ es)).sceneNames := by
  have hnames : ((create "Tale" "").run firstEdits).sceneNames = [startupName, "attic"] := by decide
  obtain ⟨hwf, -, hkept⟩ :=
    wellFormed_run_of_created_or_loaded (.inl ⟨"Tale", "", rfl⟩) firstEdits
  exact ⟨hnames, hwf, fun es ↦ hkept es (hnames ▸ List.mem_cons_self)⟩

end Project

end StoryGraph
