import StoryGraph.Project.InPlace
import StoryGraph.Proofs.Project.Edit
import StoryGraph.Proofs.Scene.InPlace

/-!
# Edits that fail change nothing

Whatever an edit has done in place by the time it fails, it has taken back when it comes back: scenes,
variables and pool are what they were. An edit that finds no number for a connection or an order does not
come back at all.
-/

namespace StoryGraph

namespace InPlace

variable {σ α : Type} {s : σ} {x : InPlace σ α}

/-- Steps, without what they come to. -/
def void (x : InPlace σ α) : InPlace σ Unit := do
  let _ ← x
  return

/-- `Reverts s x`: steps that come back with an error from a state leave that state behind. -/
def Reverts (s : σ) (x : InPlace σ α) : Prop :=
  ∀ e s', x.runFrom s = (.error e, s') → e ≠ .overflow → s' = s

theorem Reverts.of_settle {result : Except Error (α × σ)} (h : x.runFrom s = settle s result) :
    Reverts s x := by
  intro e s' hfail _
  exact eq_of_settle_eq_error (h.symm.trans hfail)

theorem Reverts.void (h : Reverts s x) : Reverts s x.void := by
  intro e s' hfail hreturns
  refine h e s' ?_ hreturns
  rw [InPlace.void, runFrom_bind] at hfail
  rcases hx : x.runFrom s with ⟨e' | a, s''⟩
  · rw [hx] at hfail
    obtain ⟨he, rfl⟩ := Prod.mk.inj hfail
    rw [Except.error.inj he]
  · rw [hx] at hfail
    exact nomatch (Prod.mk.inj hfail).1

theorem reverts_connect (d : Draft) (slot : Slot) (target : Uid) (sourceAnchor targetAnchor : Anchor) :
    Reverts d (connect slot target sourceAnchor targetAnchor) := by
  intro e d' hfail hreturns
  have hid : ((connect slot target sourceAnchor targetAnchor).runFrom d).1 ≠ .error .overflow := by
    rw [hfail]
    simpa using hreturns
  exact eq_of_settle_eq_error ((runFrom_connect d slot target sourceAnchor targetAnchor hid).symm.trans hfail)

/-! ## The scenes of a project -/

theorem runFrom_addScene (p : Project) (name : String) :
    (addScene name).runFrom p = settle p (p.addScene name) := by
  rw [addScene, Project.addScene, runFrom_bind, runFrom_get]
  dsimp only
  rw [runFrom_bind, runFrom_check]
  cases p.requireNewName name with
  | error e => rfl
  | ok _ =>
      simp only [runFrom_bind, runFrom_get, runFrom_check]
      show _ = settle p (p.pool.allocate >>= _)
      cases p.pool.allocate <;> rfl

theorem runFrom_renameScene (p : Project) (old new : String) :
    (renameScene old new).runFrom p = settle p ((p.renameScene old new).map ((), ·)) := by
  rw [renameScene, Project.renameScene]
  split
  · rfl
  · split
    · rfl
    · simp only [runFrom_bind, runFrom_get, runFrom_check]
      show _ = settle p ((p.requireNewName new >>= _).map _)
      cases p.requireNewName new with
      | error e => rfl
      | ok _ =>
          show _ = settle p ((p.scene old >>= _).map _)
          dsimp only
          cases p.scene old <;> rfl

theorem runFrom_moveSceneUp (p : Project) (name : String) :
    (moveSceneUp name).runFrom p = settle p ((p.moveSceneUp name).map ((), ·)) := by
  rw [moveSceneUp, Project.moveSceneUp]
  simp only [runFrom_bind, runFrom_get, runFrom_check]
  cases p.sceneIndex name with
  | error e => rfl
  | ok i => cases i <;> rfl

theorem runFrom_moveSceneDown (p : Project) (name : String) :
    (moveSceneDown name).runFrom p = settle p ((p.moveSceneDown name).map ((), ·)) := by
  rw [moveSceneDown, Project.moveSceneDown]
  simp only [runFrom_bind, runFrom_get, runFrom_check]
  cases p.sceneIndex name <;> rfl

theorem runFrom_removeScene (p : Project) (name : String) :
    (removeScene name).runFrom p = settle p (p.removeScene name) := by
  rw [removeScene, Project.removeScene]
  split
  · rfl
  · simp only [runFrom_bind, runFrom_get, runFrom_check]
    cases p.scene name <;> rfl

theorem Reverts.inScene {p : Project} {name : String} {edit : InPlace Draft α}
    (h : ∀ s, p.scene? name = some s → Reverts ⟨s, p.pool⟩ edit) : Reverts p (inScene name edit) := by
  intro e p' hfail hreturns
  rw [InPlace.inScene, runFrom_ofFun, Project.editScene] at hfail
  split at hfail
  · exact (Prod.mk.inj hfail).2.symm
  · rename_i s hs
    rcases hrun : edit.runFrom ⟨s, p.pool⟩ with ⟨result, d⟩
    simp only [hrun] at hfail
    obtain ⟨rfl, rfl⟩ := Prod.mk.inj hfail
    obtain rfl := h s hs e d hrun hreturns
    have hscenes : updateFirst (·.name = name) (fun _ ↦ s) p.scenes = p.scenes :=
      updateFirst_eq_self fun t ht ↦ Option.some.inj (hs.symm.trans ht)
    show { p with scenes := updateFirst (·.name = name) (fun _ ↦ s) p.scenes } = p
    rw [hscenes]

end InPlace

/-! ## Any edit -/

open InPlace

/-- The steps of an edit of a scene. Repairs and changes of what a bubble says do not fail. Ordering fails
before its first step, or it runs out of orders and does not come back. -/
def SceneEdit.steps : SceneEdit → InPlace Draft Unit
  | .addBubble kind => (InPlace.addBubble kind).void
  | .insertBubble bubble => InPlace.insertBubble bubble
  | .addOption choice text => (InPlace.addOption choice text).void
  | .removeOption option => (InPlace.removeOption option).void
  | .removeBubble uid => (InPlace.removeBubble uid).void
  | .connect slot target sourceAnchor targetAnchor =>
      (InPlace.connect slot target sourceAnchor targetAnchor).void
  | .disconnect id => (InPlace.disconnect id).void
  | .repair => .ofFun fun d ↦ SceneEdit.repair.apply d
  | .computeOrder => .ofFun fun d ↦ SceneEdit.computeOrder.apply d
  | .set uid field => .ofFun fun d ↦ (SceneEdit.set uid field).apply d

def ProjectEdit.steps : ProjectEdit → InPlace Project Unit
  | .addScene name => (InPlace.addScene name).void
  | .renameScene old new => InPlace.renameScene old new
  | .moveSceneUp name => InPlace.moveSceneUp name
  | .moveSceneDown name => InPlace.moveSceneDown name
  | .removeScene name => (InPlace.removeScene name).void
  | .inScene name edit => InPlace.inScene name edit.steps

theorem eq_of_attempt_eq_error {σ : Type} {s s' : σ} {result : Except Error σ} {e : Error}
    (h : attempt s result = (.error e, s')) : s' = s := by
  cases result with
  | error _ => exact (Prod.mk.inj h).2.symm
  | ok r => exact nomatch (Prod.mk.inj h).1

/-- An edit of a sound draft that fails leaves the draft as it is. -/
theorem Draft.Sound.reverts {name : String} {others : List Uid} {d : Draft} (h : d.Sound name others)
    (edit : SceneEdit) : Reverts d edit.steps := by
  cases edit with
  | addBubble kind => exact (Reverts.of_settle (runFrom_addBubble d kind)).void
  | insertBubble b => exact .of_settle (runFrom_insertBubble d b)
  | addOption choice text => exact (Reverts.of_settle (runFrom_addOption d choice text)).void
  | removeOption option =>
      have hreverts : Reverts d (InPlace.removeOption option) := fun _ _ hfail _ ↦
        eq_of_removeOption_eq_error h hfail
      exact hreverts.void
  | removeBubble u => exact (Reverts.of_settle (runFrom_removeBubble d u)).void
  | connect slot target sourceAnchor targetAnchor =>
      exact (reverts_connect d slot target sourceAnchor targetAnchor).void
  | disconnect id => exact (Reverts.of_settle (runFrom_disconnect d id)).void
  | repair | set => exact fun _ _ hfail _ ↦ nomatch (Prod.mk.inj hfail).1
  | computeOrder => exact fun _ _ hfail _ ↦ eq_of_attempt_eq_error hfail

/-- Scenes, variables and pool of a well-formed project are exactly what they were after an edit that comes
back with an error, wherever the edit has found what is wrong. -/
theorem Project.eq_of_steps_eq_error {p p' : Project} (h : p.WellFormed) (edit : ProjectEdit) {e : Error}
    (hfail : edit.steps.runFrom p = (.error e, p')) (hreturns : e ≠ .overflow) : p' = p := by
  have hreverts : Reverts p edit.steps := by
    cases edit with
    | addScene name => exact (Reverts.of_settle (runFrom_addScene p name)).void
    | renameScene old new => exact .of_settle (runFrom_renameScene p old new)
    | moveSceneUp name => exact .of_settle (runFrom_moveSceneUp p name)
    | moveSceneDown name => exact .of_settle (runFrom_moveSceneDown p name)
    | removeScene name => exact (Reverts.of_settle (runFrom_removeScene p name)).void
    | inScene name edit =>
        refine Reverts.inScene fun s hs ↦ ?_
        obtain ⟨-, rest, hperm, -⟩ := exists_perm_of_scene? hs
        exact (h.of_perm_cons hperm).2.reverts edit
  exact hreverts e p' hfail hreturns

/-- A choice that brings its options, the last of them with the uid of the first. -/
def repeatedOption : ProjectEdit :=
  .inScene Project.startupName
    (.addBubble (.choice [⟨⟨5⟩, "go"⟩, ⟨⟨3⟩, "stay"⟩, ⟨⟨5⟩, "go on"⟩]))

theorem Project.eq_of_steps_repeatedOption :
    (repeatedOption.steps.runFrom (create "Tale" "")).1 = .error (.duplicateUid ⟨5⟩) ∧
      (repeatedOption.steps.runFrom (create "Tale" "")).2 = create "Tale" "" := by
  have hfail : (repeatedOption.steps.runFrom (create "Tale" "")).1 = .error (.duplicateUid ⟨5⟩) := rfl
  exact ⟨hfail, eq_of_steps_eq_error (wellFormed_create _ _) _ (Prod.ext hfail rfl) (by simp)⟩

end StoryGraph
