import StoryGraph.Proofs.Files.Tree

/-!
# File steps in sequence

What saving does with files is to take steps one after the other, up to the first that fails. A run that
fails has taken the steps in front of that one, and none behind it, whatever the files are kept in. In a file
tree a run changes nothing but the files that it writes, and what was targets last at a location is there.
-/

namespace StoryGraph

/-- A step in which files change. -/
inductive FileStep where
  /-- Make a directory, and the directories around it. -/
  | makeDirs (path : Path)
  | write (path : Path) (text : String)
deriving DecidableEq, Repr

namespace FileStep

section Steps

variable {m : Type → Type} [Monad m] [MonadFiles m]

def take : FileStep → ExceptT Error m Unit
  | makeDirs path => path.makeDirs
  | write path text => path.writeText text

/-- Take steps, up to the first that fails. -/
def takeAll : List FileStep → ExceptT Error m Unit
  | [] => return ()
  | step :: steps => do
      step.take
      takeAll steps

/-- The files that steps write. -/
def targets : List FileStep → List Path
  | [] => []
  | makeDirs _ :: steps => targets steps
  | write path _ :: steps => path :: targets steps

@[simp] theorem targets_append (steps steps' : List FileStep) :
    targets (steps ++ steps') = targets steps ++ targets steps' := by
  induction steps with
  | nil => rfl
  | cons step steps ih => cases step <;> simp [targets, ih]

theorem takeAll_append [LawfulMonad m] (steps steps' : List FileStep) :
    (takeAll (steps ++ steps') : ExceptT Error m Unit) = takeAll steps >>= fun _ ↦ takeAll steps' := by
  induction steps with
  | nil => simp [takeAll]
  | cons step steps ih => simp [takeAll, ih]

end Steps

/-! ## Runs -/

section Runs

variable {σ : Type} [MonadFiles (StateM σ)] {s s' : σ} {step : FileStep} {steps steps' : List FileStep}
  {e : Error}

/-- What steps come to, and what they leave behind. -/
def run (steps : List FileStep) (s : σ) : Except Error Unit × σ :=
  (takeAll steps : ExceptT Error (StateM σ) Unit).run.run s

theorem run_append_of_ok {s₁ : σ} (h : run steps s = (.ok (), s₁)) (steps' : List FileStep) :
    run (steps ++ steps') s = run steps' s₁ := by
  unfold run at h ⊢
  rw [takeAll_append, run_bind, h]

theorem run_append_of_error (h : run steps s = (.error e, s')) (steps' : List FileStep) :
    run (steps ++ steps') s = (.error e, s') := by
  unfold run at h ⊢
  rw [takeAll_append, run_bind, h]

/-- A run that goes through has gone through each part. -/
theorem run_append_eq_ok_iff :
    run (steps ++ steps') s = (.ok (), s') ↔
      ∃ s₁, run steps s = (.ok (), s₁) ∧ run steps' s₁ = (.ok (), s') := by
  rcases hsteps : run steps s with ⟨e | _, s₁⟩
  · simp [run_append_of_error hsteps]
  · simp [run_append_of_ok hsteps]

theorem run_singleton (step : FileStep) (s : σ) :
    run [step] s = (step.take : ExceptT Error (StateM σ) Unit).run.run s := by
  rw [run, takeAll, run_bind]
  rcases (step.take : ExceptT Error (StateM σ) Unit).run.run s with ⟨_ | _, _⟩ <;> rfl

/-- A run that fails has taken the steps in front of one that failed. -/
theorem exists_of_run_eq_error (h : run steps s = (.error e, s')) :
    ∃ before step after s₁, steps = before ++ step :: after ∧ run before s = (.ok (), s₁) ∧
      run [step] s₁ = (.error e, s') := by
  induction steps generalizing s with
  | nil => cases h
  | cons step steps ih =>
      rw [← List.singleton_append] at h
      rcases hstep : run [step] s with ⟨e' | _, s₁⟩
      · rw [run_append_of_error hstep] at h
        exact ⟨[], step, steps, s, rfl, rfl, hstep.trans h⟩
      · rw [run_append_of_ok hstep] at h
        obtain ⟨before, failing, after, s₂, rfl, hbefore, hfailing⟩ := ih h
        refine ⟨step :: before, failing, after, s₂, rfl, ?_, hfailing⟩
        rw [← List.singleton_append, run_append_of_ok hstep]
        exact hbefore

end Runs

/-! ## Runs in a file tree -/

section Tree

variable {t t' : FileTree} {path : Path} {text : String} {steps : List FileStep} {result : Except Error Unit}

theorem run_write (path : Path) (text : String) (t : FileTree) :
    run [write path text] t = match t.write path text.toUTF8 with
      | .ok t' => (.ok (), t')
      | .error e => (.error (.file path.text e), t) := by
  have hwrite : run [write path text] t =
      ((FileTree.attempt (·.write path text.toUTF8)).run t).map (·.mapError (.file path.text)) id :=
    run_singleton _ t
  rw [hwrite, FileTree.run_attempt]
  cases t.write path text.toUTF8 <;> rfl

theorem run_makeDirs (path : Path) (t : FileTree) :
    run [makeDirs path] t = ((MonadFiles.ensureDirs path : StateM FileTree _).run t).map
      (·.mapError (.file path.text)) id :=
  run_singleton _ t

/-- A step changes the file that it writes. -/
theorem changes_of_step {step : FileStep} (h : run [step] t = (result, t')) :
    FileTree.Changes ((targets [step]).map (·.locate t.current)) t t' := by
  cases step with
  | makeDirs path =>
      rcases hdirs : (MonadFiles.ensureDirs path : StateM FileTree _).run t with ⟨made, t₁⟩
      rw [run_makeDirs, hdirs] at h
      obtain ⟨-, rfl⟩ := Prod.mk.inj h
      exact (FileTree.of_ensureDirs hdirs).1
  | write path text =>
      rw [run_write] at h
      split at h
      · rename_i t₁ hwrite
        obtain ⟨-, rfl⟩ := Prod.mk.inj h
        exact .of_write hwrite
      · obtain ⟨-, rfl⟩ := Prod.mk.inj h
        exact (FileTree.Changes.refl t).mono (List.nil_subset _)

/-- A run changes the files that it writes, also when it fails. -/
theorem changes_of_run (h : run steps t = (result, t')) :
    FileTree.Changes ((targets steps).map (·.locate t.current)) t t' := by
  induction steps generalizing t with
  | nil =>
      obtain ⟨-, rfl⟩ := Prod.mk.inj h
      exact .refl t
  | cons step steps ih =>
      rw [← List.singleton_append] at h ⊢
      rw [targets_append, List.map_append]
      rcases hstep : run [step] t with ⟨e | _, t₁⟩
      · rw [run_append_of_error hstep] at h
        obtain ⟨-, rfl⟩ := Prod.mk.inj h
        exact (changes_of_step hstep).mono (List.subset_append_left _ _)
      · rw [run_append_of_ok hstep] at h
        have hchanges := changes_of_step hstep
        exact hchanges.trans (hchanges.current ▸ ih h)

/-- A directory that has been made is there. -/
theorem node?_of_makeDirs (h : run [makeDirs path] t = (.ok (), t')) (hne : path ≠ .empty) :
    t'.node? (path.locate t.current) = some .dir := by
  rcases hdirs : (MonadFiles.ensureDirs path : StateM FileTree _).run t with ⟨made, t₁⟩
  rw [run_makeDirs, hdirs] at h
  cases made with
  | error e => cases h
  | ok =>
      obtain ⟨-, rfl⟩ := Prod.mk.inj h
      exact (FileTree.of_ensureDirs hdirs).2 rfl hne

/-- A file that has been written is there, with what was written. -/
theorem node?_of_write (h : run [write path text] t = (.ok (), t')) :
    t'.node? (path.locate t.current) = some (.file text.toUTF8) := by
  rw [run_write] at h
  split at h
  · rename_i hwrite
    obtain ⟨-, rfl⟩ := Prod.mk.inj h
    obtain ⟨hdir, rfl⟩ := FileTree.of_write hwrite
    exact FileTree.node?_put_self (FileTree.ne_nil_of_node? hdir)
  · cases h

/-- What is written last at a location is there in the end. -/
theorem node?_of_run {before after : List FileStep}
    (h : run (before ++ write path text :: after) t = (.ok (), t'))
    (hafter : ∀ q ∈ targets after, q.locate t.current ≠ path.locate t.current) :
    t'.node? (path.locate t.current) = some (.file text.toUTF8) := by
  rw [← List.singleton_append] at h
  obtain ⟨t₁, hbefore, h⟩ := run_append_eq_ok_iff.mp h
  obtain ⟨t₂, hwrite, hrun⟩ := run_append_eq_ok_iff.mp h
  have hcurrent : t₂.current = t.current :=
    (changes_of_run hwrite).current.trans (changes_of_run hbefore).current
  have hthere := node?_of_write hwrite
  rw [(changes_of_run hbefore).current] at hthere
  refine (changes_of_run hrun).node?_of_some ?_ hthere
  rw [hcurrent]
  intro hmem
  obtain ⟨q, hq, heq⟩ := List.mem_map.mp hmem
  exact hafter q hq heq

end Tree

end FileStep

end StoryGraph
