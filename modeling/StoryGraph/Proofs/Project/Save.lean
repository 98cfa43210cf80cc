import StoryGraph.Project.Store
import StoryGraph.Proofs.Files.Steps
import StoryGraph.Proofs.Project.Compile
import StoryGraph.Proofs.Scene.Sequence

/-!
# Saving a project with its scripts

Nothing is written unless every scene compiles. Where one does not, all that is left are orders, in the scenes
up to that one. Otherwise saving takes steps: it makes a directory, writes the scripts, and writes the project
file last. So a project file is there with new orders only where all scripts are.
-/

namespace StoryGraph.Project

/-! ## The steps of saving -/

/-- The steps of writing scripts. -/
def writeSteps (dir : Path) (indent : Indent) (scripts : List (String × Script)) : List FileStep :=
  scripts.map fun (name, script) ↦ .write (scriptPath dir name) (script.render indent)

/-- The steps of writing scripts where there may be no directory for them yet. -/
def exportSteps (dir : Path) (indent : Indent) (scripts : List (String × Script)) : List FileStep :=
  .makeDirs (scenesDir dir) :: writeSteps dir indent scripts

/-- The steps of making the directory that a project file lies in. -/
def directorySteps (path : Path) : List FileStep := (path.directory?.map .makeDirs).toList

/-- The files of scripts. -/
def scriptPaths (dir : Path) (scripts : List (String × Script)) : List Path :=
  scripts.map fun s ↦ scriptPath dir s.1

section Steps

variable {m : Type → Type} [Monad m] [MonadFiles m] {p p' : Project} {options : Options}
  {scripts : List (String × Script)} {e : Error}

theorem writeAll_of_compile_eq_error (h : p.compile options = (.error e, p')) (dir : Path) :
    (p.writeAll dir options : m _) = pure (.error e, p') := by
  rw [writeAll, h]

variable [LawfulMonad m]

theorem saveAll_of_compile_eq_error (h : p.compile options = (.error e, p')) (path : Path) :
    (p.saveAll path options : m _) = pure (.error e, p') := by
  rw [saveAll, writeAll_of_compile_eq_error h, pure_bind]

theorem writeScripts_eq (dir : Path) (indent : Indent) (scripts : List (String × Script)) :
    (writeScripts dir indent scripts : ExceptT Error m (List Path)) =
      (fun _ ↦ scriptPaths dir scripts) <$> FileStep.takeAll (writeSteps dir indent scripts) := by
  induction scripts with
  | nil => simp [writeScripts, writeSteps, FileStep.takeAll, scriptPaths]
  | cons script scripts ih =>
      rw [writeScripts, ih]
      simp [writeSteps, FileStep.takeAll, FileStep.take, scriptPaths]

theorem save_eq (p : Project) (path : Path) :
    (p.save path : ExceptT Error m Unit) =
      FileStep.takeAll (directorySteps path ++ [.write path p.toText]) := by
  unfold save directorySteps
  cases path.directory? <;> simp [FileStep.takeAll, FileStep.take]

theorem writeAll_of_compile (h : p.compile options = (.ok scripts, p')) (dir : Path) :
    (p.writeAll dir options : m _) =
      (fun result ↦ (result.map fun _ ↦ scriptPaths dir scripts, p')) <$>
        (FileStep.takeAll (exportSteps dir options.indent scripts)).run := by
  have hexport : (do
      (scenesDir dir).makeDirs
      writeScripts dir options.indent scripts : ExceptT Error m (List Path)) =
      (fun _ ↦ scriptPaths dir scripts) <$> FileStep.takeAll (exportSteps dir options.indent scripts) := by
    rw [writeScripts_eq, exportSteps, FileStep.takeAll, map_bind]
    rfl
  simp [writeAll, h, hexport]

theorem saveAll_of_compile (h : p.compile options = (.ok scripts, p')) (path : Path) :
    (p.saveAll path options : m _) =
      (fun result ↦ (result.map fun _ ↦ scriptPaths (path.directory?.getD .here) scripts, p')) <$>
        (FileStep.takeAll (exportSteps (path.directory?.getD .here) options.indent scripts ++
          directorySteps path ++ [.write path p'.toText])).run := by
  rw [saveAll, writeAll_of_compile h, List.append_assoc, FileStep.takeAll_append, ExceptT.run_bind, map_bind,
    bind_map_left]
  congr 1
  funext result
  cases result with
  | error e => simp [Except.map]
  | ok => simp [Except.map, save_eq]

end Steps

/-! ## Where a scene does not compile -/

variable {p p' : Project} {options : Options} {e : Error}

/-- `p.StopsWith options e p'`: a scene does not compile for an error where all scenes in front of it do, and
what that leaves behind has other orders at most, in the scenes up to and including that one. -/
def StopsWith (p : Project) (options : Options) (e : Error) (p' : Project) : Prop :=
  ∃ before failing after scripts p₁, p.scenes = before ++ failing :: after ∧
    p.compileScenes options (before.map (·.name)) = (.ok scripts, p₁) ∧
    p₁.compileScene failing.name options = (.error e, p') ∧
    p'.unordered = p.unordered ∧ p'.scenes.drop (before.length + 1) = after

theorem stopsWith_of_compile (h : p.compile options = (.error e, p')) : p.StopsWith options e p' := by
  obtain ⟨before, name, after, scripts, p₁, hnames, hbefore, hfailing⟩ := exists_of_compileScenes_eq_error h
  obtain ⟨front, rest, hscenes, rfl, hrest⟩ := List.map_eq_append_iff.mp hnames
  obtain ⟨failing, back, rfl, rfl, rfl⟩ := List.map_eq_cons_iff.mp hrest
  obtain ⟨hunordered, hdrop⟩ := p.unordered_compileScenes options (front.map (·.name))
  obtain ⟨hunordered', hdrop'⟩ := p₁.unordered_compileScene failing.name options
  rw [hbefore] at hunordered hdrop
  rw [hfailing] at hunordered' hdrop'
  rw [sceneNames_of_unordered hunordered] at hdrop'
  have htake : p.sceneNames.take (front.length + 1) = front.map (·.name) ++ [failing.name] := by
    simp [sceneNames, hscenes, List.take_append, List.take_of_length_le]
  refine ⟨front, failing, back, scripts, p₁, hscenes, hbefore, hfailing, hunordered'.trans hunordered, ?_⟩
  calc
    p'.scenes.drop (front.length + 1) = p₁.scenes.drop (front.length + 1) :=
      hdrop' _ (by simp [htake])
    _ = p.scenes.drop (front.length + 1) := hdrop _ (by simp [htake])
    _ = back := by simp [hscenes, List.drop_append]

/-! ## Saving -/

section Saving

variable {σ : Type} [MonadFiles (StateM σ)]

/-- Writing scripts comes to what its steps come to. -/
theorem run_writeAll_of_compile {scripts : List (String × Script)} (h : p.compile options = (.ok scripts, p'))
    (dir : Path) {s s' : σ} {result : Except Error Unit}
    (hrun : FileStep.run (exportSteps dir options.indent scripts) s = (result, s')) :
    (p.writeAll dir options : StateM σ _).run s =
      ((result.map fun _ ↦ scriptPaths dir scripts, p'), s') := by
  rw [writeAll_of_compile h, StateT.run_map]
  exact congrArg (fun r : Except Error Unit × σ ↦ ((r.1.map fun _ ↦ _, p'), r.2)) hrun

/-- Saving comes to what its steps come to. -/
theorem run_saveAll_of_compile {scripts : List (String × Script)} (h : p.compile options = (.ok scripts, p'))
    {path : Path} {s s' : σ} {result : Except Error Unit}
    (hrun : FileStep.run (exportSteps (path.directory?.getD .here) options.indent scripts ++
      directorySteps path ++ [.write path p'.toText]) s = (result, s')) :
    (p.saveAll path options : StateM σ _).run s =
      ((result.map fun _ ↦ scriptPaths (path.directory?.getD .here) scripts, p'), s') := by
  rw [saveAll_of_compile h, StateT.run_map]
  exact congrArg (fun r : Except Error Unit × σ ↦ ((r.1.map fun _ ↦ _, p'), r.2)) hrun

/-- `p.Saves path steps s result s'`: what it comes to, and what it leaves behind, to take steps and to write
a project file after them. -/
inductive Saves (p : Project) (path : Path) (steps : List FileStep) (s : σ) :
    Except Error Unit → σ → Prop where
  /-- All steps have been taken, and the project file is written. -/
  | last {s₁ s' result} : FileStep.run steps s = (.ok (), s₁) →
      FileStep.run [.write path p.toText] s₁ = (result, s') → Saves p path steps s result s'
  /-- A step fails, and nothing is done after it. -/
  | stop {before step after s₁ s' e} : steps = before ++ step :: after →
      FileStep.run before s = (.ok (), s₁) → FileStep.run [step] s₁ = (.error e, s') →
      Saves p path steps s (.error e) s'

theorem saves_of_run {path : Path} {steps : List FileStep} {s s' : σ} {result : Except Error Unit}
    (h : FileStep.run (steps ++ [.write path p.toText]) s = (result, s')) :
    p.Saves path steps s result s' := by
  rcases hsteps : FileStep.run steps s with ⟨e | _, s₁⟩
  · rw [FileStep.run_append_of_error hsteps] at h
    obtain ⟨rfl, rfl⟩ := Prod.mk.inj h
    obtain ⟨before, step, after, s₂, hsplit, hbefore, hstep⟩ := FileStep.exists_of_run_eq_error hsteps
    exact .stop hsplit hbefore hstep
  · rw [FileStep.run_append_of_ok hsteps] at h
    exact .last hsteps h

end Saving

/-! ## Saving in a file tree -/

@[simp] theorem targets_writeSteps (dir : Path) (indent : Indent) (scripts : List (String × Script)) :
    FileStep.targets (writeSteps dir indent scripts) = scriptPaths dir scripts := by
  induction scripts with
  | nil => rfl
  | cons script scripts ih => exact congrArg (scriptPath dir script.1 :: ·) ih

@[simp] theorem targets_exportSteps (dir : Path) (indent : Indent) (scripts : List (String × Script)) :
    FileStep.targets (exportSteps dir indent scripts) = scriptPaths dir scripts :=
  targets_writeSteps dir indent scripts

@[simp] theorem targets_directorySteps (path : Path) : FileStep.targets (directorySteps path) = [] := by
  unfold directorySteps
  cases path.directory? <;> rfl

/-- Saving that fails changes the files that steps before the project file write. -/
theorem changes_of_saves {path : Path} {steps : List FileStep} {t t' : FileTree}
    (h : p.Saves path steps t (.error e) t') :
    FileTree.Changes ((FileStep.targets steps).map (·.locate t.current)) t t' := by
  cases h with
  | last hsteps hlast =>
      rw [FileStep.run_write] at hlast
      split at hlast
      · cases hlast
      · obtain ⟨-, rfl⟩ := Prod.mk.inj hlast
        exact FileStep.changes_of_run hsteps
  | stop hsplit hbefore hstep =>
      rename_i before step after t₁
      have hrun : FileStep.run steps t = (.error e, t') := by
        rw [hsplit, FileStep.run_append_of_ok hbefore, ← List.singleton_append]
        exact FileStep.run_append_of_error hstep after
      exact FileStep.changes_of_run hrun

/-- A project file is written after all scripts, and nothing is written unless all scenes compile. -/
theorem saveAll_writes_project_last (p : Project) (options : Options) (dir path : Path) {σ : Type}
    [MonadFiles (StateM σ)] (s : σ) (t : FileTree) :
    match p.compile options with
    | (.error e, p') =>
        (p.writeAll dir options : StateM σ _).run s = ((.error e, p'), s) ∧
          (p.saveAll path options : StateM σ _).run s = ((.error e, p'), s) ∧ p.StopsWith options e p'
    | (.ok scripts, p') =>
        let scenes := path.directory?.getD .here
        let steps := exportSteps scenes options.indent scripts ++ directorySteps path
        (∃ result s', p'.Saves path steps s result s' ∧ (p.saveAll path options : StateM σ _).run s =
            ((result.map fun _ ↦ scriptPaths scenes scripts, p'), s')) ∧
          ∃ (result : Except Error Unit) (t' : FileTree), (result = .ok () ∨
              FileTree.Changes ((scriptPaths scenes scripts).map (·.locate t.current)) t t') ∧
            (p.saveAll path options : StateM FileTree _).run t =
              ((result.map fun _ ↦ scriptPaths scenes scripts, p'), t') := by
  rcases h : p.compile options with ⟨e | scripts, p'⟩
  · refine ⟨?_, ?_, stopsWith_of_compile h⟩
    · rw [writeAll_of_compile_eq_error h]
      rfl
    · rw [saveAll_of_compile_eq_error h]
      rfl
  · dsimp only
    set scenes := path.directory?.getD .here
    set steps := exportSteps scenes options.indent scripts ++ directorySteps path
    have hrun {τ : Type} [MonadFiles (StateM τ)] (s : τ) : ∃ result s', p'.Saves path steps s result s' ∧
        (p.saveAll path options : StateM τ _).run s =
          ((result.map fun _ ↦ scriptPaths scenes scripts, p'), s') := by
      rcases hsteps : FileStep.run (steps ++ [.write path p'.toText]) s with ⟨result, s'⟩
      exact ⟨result, s', saves_of_run hsteps, run_saveAll_of_compile h hsteps⟩
    refine ⟨hrun s, ?_⟩
    obtain ⟨result, t', hsaves, heq⟩ := hrun t
    refine ⟨result, t', ?_, heq⟩
    cases result with
    | ok => exact .inl rfl
    | error e =>
        right
        have hchanges := changes_of_saves hsaves
        rwa [FileStep.targets_append, targets_exportSteps, targets_directorySteps, List.append_nil] at hchanges

/-- A story follows the start. -/
def chapter : Scene where
  name := "chapter"
  bubbles := [.create ⟨1⟩ .start, .create ⟨3⟩ (.story "on")]
  connections := [⟨⟨0⟩, ⟨⟨1⟩, .next⟩, ⟨3⟩, .south, .north⟩]

def twoScenes : Project where
  title := "Two scenes"
  author := ""
  scenes := [.create startupName ⟨0⟩, chapter]
  vars := []
  pool := ⟨[⟨0⟩, ⟨1⟩, ⟨3⟩], by decide⟩

theorem wellFormed_twoScenes : twoScenes.WellFormed where
  nodup_names := by decide
  scenes := by decide
  nodup_uids := by decide
  mem_pool _ := Iff.rfl

/-- Where nothing may follow inline, the story does not. -/
theorem compileScene_chapter {script : Script} :
    (twoScenes.compileScene "chapter" ⟨.spaces 4, 0⟩).1 ≠ .ok script := by
  intro h
  obtain ⟨p', hcompile⟩ := exists_of_fst_eq h
  obtain ⟨s, count, s', code, policy, hs, hcount, -, hemit, -⟩ := compileScene_eq_ok_iff.mp hcompile
  obtain rfl : chapter = s := Option.some.inj hs
  have horder : chapter.computeOrder = .ok (1, chapter) := by cbv
  obtain ⟨-, rfl⟩ := Prod.mk.inj (Except.ok.inj (hcount.symm.trans horder))
  have hsequence : chapter.sequence = chapter.bubbles.map (·.uid) :=
    Scene.WellFormed.sequence_eq_map (by decide) (.refl _) (by decide)
  have hfail : (chapter.emit chapter.sequence 0).map (·.1) = .error (.depthLimitExceeded ⟨3⟩ 0) := by
    rw [hsequence]
    decide +kernel
  cases hemit.symm.trans (map_eq_error.mp hfail)

/-- Where nothing may follow inline, the last scene does not compile, and nothing is written. -/
theorem saveAll_twoScenes :
    ∃ e p', twoScenes.compile ⟨.spaces 4, 0⟩ = (.error e, p') ∧
      (twoScenes.saveAll (.ofText "out/story.json") ⟨.spaces 4, 0⟩ : StateM FileTree _).run (.create []) =
        ((.error e, p'), .create []) ∧
      twoScenes.StopsWith ⟨.spaces 4, 0⟩ e p' := by
  have hsave := saveAll_writes_project_last twoScenes ⟨.spaces 4, 0⟩ (.ofText "out")
    (.ofText "out/story.json") (FileTree.create []) (.create [])
  rcases hcompile : twoScenes.compile ⟨.spaces 4, 0⟩ with ⟨e | scripts, p'⟩
  · rw [hcompile] at hsave
    exact ⟨e, p', rfl, hsave.2⟩
  · -- the second scene would have compiled
    obtain ⟨entry, hentry, hname⟩ := List.mem_map.mp
      (map_fst_of_compileScenes hcompile ▸ (by decide : "chapter" ∈ twoScenes.sceneNames))
    have hscene :=
      wellFormed_twoScenes.keeps.of_compileScenes wellFormed_twoScenes.nodup_names hcompile entry hentry
    rw [hname] at hscene
    exact absurd hscene compileScene_chapter

end StoryGraph.Project
