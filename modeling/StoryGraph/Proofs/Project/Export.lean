import StoryGraph.Proofs.Project.Progress
import StoryGraph.Proofs.Project.RoundTrip
import StoryGraph.Proofs.Project.Save

/-!
# Where scripts are written

The file of a script is the path that the name of its scene makes in the directory of scenes. A name without
slashes is an entry of that directory, so if no name has any the scripts lie there, each in a file of its own.
Any other name is a path of its own, which may lead out of the directory, or to the file of another scene.
-/

namespace StoryGraph.Project

variable {p p' : Project} {dir : Path} {options : Options} {scripts : List (String × Script)}
  {t t' : FileTree} {name : String}

/-! ## Files of scripts -/

theorem scenesDir_ne_empty (dir : Path) : scenesDir dir ≠ .empty := by
  intro h
  have hsegments := congrArg Path.segments h
  simp [scenesDir, Path.join, Path.append, Path.ofText, Path.cut, Path.empty] at hsegments

/-- A name without slashes makes a file in the directory of scenes. -/
theorem locate_scriptPath (h : '/' ∉ name.toList) (dir : Path) (current : Location) :
    (scriptPath dir name).locate current = (name ++ ".txt") :: (scenesDir dir).locate current := by
  -- the name of the file is too long for dots
  have hlength : 4 ≤ (name ++ ".txt").length := by
    rw [String.length_append]
    exact Nat.le_add_left _ _
  have hne : ∀ text : String, text.length < 4 → name ++ ".txt" ≠ text := by
    rintro text hlt rfl
    exact absurd hlength (Nat.not_le.mpr hlt)
  refine Path.locate_join ?_ ?_ (hne ".." (by decide)) current
  · simpa using h
  · simp [Path.isIdle, hne "" (by decide), hne "." (by decide)]

/-- `Exported dir indent scripts t t'`: of the scripts that lead to one file, the last one is there. Other
files are as they were, and what else is new are directories. -/
structure Exported (dir : Path) (indent : Indent) (scripts : List (String × Script)) (t t' : FileTree) :
    Prop where
  scenes : t'.node? ((scenesDir dir).locate t.current) = some .dir
  file : ∀ before name script after, scripts = before ++ (name, script) :: after →
    (∀ path ∈ scriptPaths dir after, path.locate t.current ≠ (scriptPath dir name).locate t.current) →
    t'.node? ((scriptPath dir name).locate t.current) = some (.file (script.render indent).toUTF8)
  changes : FileTree.Changes ((scriptPaths dir scripts).map (·.locate t.current)) t t'

/-- `Contained dir indent scripts t t'`: every script is in a file of its own in the directory of scenes, and
no file is new or has changed anywhere else. -/
structure Contained (dir : Path) (indent : Indent) (scripts : List (String × Script)) (t t' : FileTree) :
    Prop where
  scenes : t'.node? ((scenesDir dir).locate t.current) = some .dir
  child : ∀ path ∈ scriptPaths dir scripts,
    ∃ name, path.locate t.current = name :: (scenesDir dir).locate t.current
  nodup : ((scriptPaths dir scripts).map (·.locate t.current)).Nodup
  file : ∀ name script, (name, script) ∈ scripts →
    t'.node? ((scriptPath dir name).locate t.current) = some (.file (script.render indent).toUTF8)
  other : ∀ l, (∀ name, l ≠ name :: (scenesDir dir).locate t.current) →
    t'.node? l = t.node? l ∨ t.node? l = none ∧ t'.node? l = some .dir

theorem exported_of_run (h : FileStep.run (exportSteps dir options.indent scripts) t = (.ok (), t')) :
    Exported dir options.indent scripts t t' := by
  have hchanges := FileStep.changes_of_run h
  rw [targets_exportSteps] at hchanges
  refine ⟨?_, ?_, hchanges⟩
  · rw [exportSteps, ← List.singleton_append] at h
    obtain ⟨t₁, hmake, hwrite⟩ := FileStep.run_append_eq_ok_iff.mp h
    exact (FileStep.changes_of_run hwrite).dir _ (FileStep.node?_of_makeDirs hmake (scenesDir_ne_empty dir))
  · rintro before name script after rfl hafter
    have hsplit : exportSteps dir options.indent (before ++ (name, script) :: after) =
        exportSteps dir options.indent before ++
          .write (scriptPath dir name) (script.render options.indent) ::
            writeSteps dir options.indent after := by
      simp [exportSteps, writeSteps]
    rw [hsplit] at h
    exact FileStep.node?_of_run h (by simpa using hafter)

/-- Names that differ and have no slashes make different files. -/
theorem Exported.contained (h : Exported dir options.indent scripts t t') (hnodup : (scripts.map (·.1)).Nodup)
    (hslash : ∀ name ∈ scripts.map (·.1), '/' ∉ name.toList) :
    Contained dir options.indent scripts t t' := by
  have hlocate : (scriptPaths dir scripts).map (·.locate t.current) =
      (scripts.map (·.1)).map fun name ↦ (name ++ ".txt") :: (scenesDir dir).locate t.current := by
    rw [scriptPaths, List.map_map, List.map_map]
    refine List.map_congr_left ?_
    intro s hs
    exact locate_scriptPath (hslash s.1 (List.mem_map_of_mem hs)) dir t.current
  have hchild : ∀ path ∈ scriptPaths dir scripts,
      ∃ name, path.locate t.current = name :: (scenesDir dir).locate t.current := by
    intro path hpath
    have hmem := List.mem_map_of_mem (f := (·.locate t.current)) hpath
    rw [hlocate] at hmem
    obtain ⟨name, -, heq⟩ := List.mem_map.mp hmem
    exact ⟨name ++ ".txt", heq.symm⟩
  have hpaths : ((scriptPaths dir scripts).map (·.locate t.current)).Nodup := by
    rw [hlocate]
    refine hnodup.map ?_
    intro name name' heq
    simpa using (List.cons.inj heq).1
  refine ⟨h.scenes, hchild, hpaths, ?_, ?_⟩
  · intro name script hmem
    obtain ⟨before, after, rfl⟩ := List.append_of_mem hmem
    refine h.file before name script after rfl ?_
    -- the file of a script that comes after would be there twice
    intro path hpath heq
    rw [scriptPaths, List.map_append, List.map_append] at hpaths
    have hnot := (List.nodup_cons.mp (List.nodup_append.mp hpaths).2.1).1
    exact hnot (List.mem_map.mpr ⟨path, hpath, heq⟩)
  · intro l hl
    refine h.changes.node? l ?_
    intro hmem
    obtain ⟨path, hpath, rfl⟩ := List.mem_map.mp hmem
    obtain ⟨name, heq⟩ := hchild path hpath
    exact hl name heq

/-- Scripts that have been written are those of a project that compiles. -/
theorem exists_of_writeAll {written : List Path}
    (h : (p.writeAll dir options : StateM FileTree _).run t = ((.ok written, p'), t')) :
    ∃ scripts, p.compile options = (.ok scripts, p') ∧ scripts.map (·.1) = p.sceneNames ∧
      written = p.sceneNames.map (scriptPath dir) ∧ Exported dir options.indent scripts t t' := by
  rcases hcompile : p.compile options with ⟨e | scripts, p₁⟩
  · rw [writeAll_of_compile_eq_error hcompile] at h
    cases h
  · have hnames : scripts.map (·.1) = p.sceneNames := map_fst_of_compileScenes hcompile
    rcases hrun : FileStep.run (exportSteps dir options.indent scripts) t with ⟨e | _, t₁⟩
    · rw [run_writeAll_of_compile hcompile dir hrun] at h
      cases h
    · rw [run_writeAll_of_compile hcompile dir hrun] at h
      obtain ⟨hresult, rfl⟩ := Prod.mk.inj h
      obtain ⟨hwritten, rfl⟩ := Prod.mk.inj hresult
      refine ⟨scripts, rfl, hnames, ?_, exported_of_run hrun⟩
      rw [← Except.ok.inj hwritten, ← hnames, List.map_map]
      rfl

/-- What writing the scripts of a project that has been loaded leaves behind. If no scene has a slash in its
name, that is a file of its own for each script in the directory of scenes, and no other file. -/
theorem exported_of_writeAll {text : String} {r : LoadReport} {written : List Path}
    (hload : ofText text = .ok (p, r))
    (hwrite : (p.writeAll dir options : StateM FileTree _).run t = ((.ok written, p'), t')) :
    ∃ scripts, p.compile options = (.ok scripts, p') ∧ scripts.map (·.1) = p.sceneNames ∧
      written = p.sceneNames.map (scriptPath dir) ∧ Exported dir options.indent scripts t t' ∧
      ((∀ name ∈ p.sceneNames, '/' ∉ name.toList) → Contained dir options.indent scripts t t') := by
  obtain ⟨scripts, hcompile, hnames, hwritten, hexported⟩ := exists_of_writeAll hwrite
  refine ⟨scripts, hcompile, hnames, hwritten, hexported, ?_⟩
  rw [← hnames]
  refine hexported.contained ?_
  rw [hnames]
  exact (wellFormed_of_ofText hload).nodup_names

/-! ## Into an empty tree -/

/-- The tree that making the directory of scenes in an empty one leaves. -/
def outScenes : FileTree := ⟨[(["scenes", "out"], .dir), (["out"], .dir)], []⟩

theorem run_makeDirs_outScenes :
    FileStep.run [.makeDirs (scenesDir (.ofText "out"))] (.create []) = (.ok (), outScenes) := by
  have hpath : scenesDir (.ofText "out") = ⟨false, ["out", "scenes"]⟩ := by decide
  have hmissing : (FileTree.create []).find ⟨false, ["out", "scenes"]⟩ = .error .notFound := by
    unfold FileTree.find
    rw [FileTree.contains_nul_eq_false (by decide)]
    rfl
  have hout : (FileTree.create []).makeDir ⟨false, ["out"]⟩ = .ok ⟨[(["out"], .dir)], []⟩ := by
    unfold FileTree.makeDir FileTree.findNode FileTree.find
    rw [FileTree.contains_nul_eq_false (by decide)]
    rfl
  have hscenes : (⟨[(["out"], .dir)], []⟩ : FileTree).makeDir ⟨false, ["out", "scenes"]⟩ =
      .ok outScenes := by
    unfold FileTree.makeDir FileTree.findNode FileTree.find
    rw [FileTree.contains_nul_eq_false (by decide)]
    rfl
  rw [FileStep.run_makeDirs, hpath, FileTree.run_ensureDirs_of_missing (by decide) hmissing rfl
    (FileTree.run_ensureDirs_of_makeDir (by decide) hout), FileTree.run_ensureDir, hscenes]
  rfl

/-- The script of a second scene is written if its file can be. -/
theorem run_exportSteps_outScenes {indent : Indent} {first second : Script}
    (h : (outScenes.put ["startup.txt", "scenes", "out"] (.file (first.render indent).toUTF8)).write
      (scriptPath (.ofText "out") name) (second.render indent).toUTF8 = .ok t') :
    FileStep.run (exportSteps (.ofText "out") indent [(startupName, first), (name, second)]) (.create []) =
      (.ok (), t') := by
  have hstartup : outScenes.write (scriptPath (.ofText "out") startupName) (first.render indent).toUTF8 =
      .ok (outScenes.put ["startup.txt", "scenes", "out"] (.file (first.render indent).toUTF8)) := by
    unfold FileTree.write FileTree.findNode FileTree.find
    rw [FileTree.contains_nul_eq_false (by decide)]
    rfl
  have hfirst := FileStep.run_write (scriptPath (.ofText "out") startupName) (first.render indent) outScenes
  have hsecond := FileStep.run_write (scriptPath (.ofText "out") name) (second.render indent)
    (outScenes.put ["startup.txt", "scenes", "out"] (.file (first.render indent).toUTF8))
  rw [hstartup] at hfirst
  rw [h] at hsecond
  exact (FileStep.run_append_of_ok run_makeDirs_outScenes _).trans
    ((FileStep.run_append_of_ok hfirst _).trans hsecond)

/-- A project of two scenes is written if it compiles and the script of the second can be written. -/
theorem exists_writeAll_outScenes (hp : p.WellFormed) (hfits : ∀ s ∈ p.scenes, s.FitsIn options.maxDepth.toNat)
    (hnames : p.sceneNames = [startupName, name]) (hwrite : ∀ first second, ∃ t',
      (outScenes.put ["startup.txt", "scenes", "out"] (.file first)).write (scriptPath (.ofText "out") name)
        second = .ok t') :
    ∃ written p' t', (p.writeAll (.ofText "out") options : StateM FileTree _).run (.create []) =
      ((.ok written, p'), t') := by
  obtain ⟨scripts, p', hcompile⟩ := hp.exists_compile options hfits
  have hscripts := map_fst_of_compileScenes hcompile
  rw [hnames] at hscripts
  obtain ⟨⟨_, first⟩, rest, rfl, rfl, hrest⟩ := List.map_eq_cons_iff.mp hscripts
  obtain ⟨⟨_, second⟩, rfl, rfl⟩ := List.map_eq_singleton_iff.mp hrest
  obtain ⟨t', ht'⟩ := hwrite (first.render options.indent).toUTF8 (second.render options.indent).toUTF8
  exact ⟨_, p', t', run_writeAll_of_compile hcompile _ (run_exportSteps_outScenes ht')⟩

/-- The scripts of two scenes with plain names are written into a directory that is made for them. -/
theorem exported_twoScenes :
    ∃ written p' t', Project.ofText twoScenes.toText = .ok (twoScenes, ⟨[]⟩) ∧
      (twoScenes.writeAll (.ofText "out") default : StateM FileTree _).run (.create []) =
        ((.ok written, p'), t') ∧
      ∃ scripts, twoScenes.compile default = (.ok scripts, p') ∧
        Contained (.ofText "out") default scripts (.create []) t' := by
  have hload := ofText_toText_of_wellFormed wellFormed_twoScenes
  have hsecond (first second : ByteArray) : ∃ t',
      (outScenes.put ["startup.txt", "scenes", "out"] (.file first)).write (scriptPath (.ofText "out") "chapter")
        second = .ok t' := by
    unfold FileTree.write FileTree.findNode FileTree.find
    rw [FileTree.contains_nul_eq_false (by decide)]
    exact ⟨_, rfl⟩
  have hfits : ∀ s ∈ twoScenes.scenes, s.FitsIn (default : Options).maxDepth.toNat := by decide
  obtain ⟨written, p', t', hwrite⟩ := exists_writeAll_outScenes wellFormed_twoScenes hfits rfl hsecond
  obtain ⟨scripts, hcompile, -, -, -, hcontained⟩ := exported_of_writeAll hload hwrite
  exact ⟨written, p', t', hload, hwrite, scripts, hcompile, hcontained (by decide)⟩

/-- A scene whose name leads out of the directory of scenes. -/
def escaping : Project where
  title := "Escaping"
  author := ""
  scenes := [.create startupName ⟨0⟩, .create "../keep" ⟨1⟩]
  vars := []
  pool := ⟨[⟨0⟩, ⟨1⟩], by decide⟩

theorem wellFormed_escaping : escaping.WellFormed where
  nodup_names := by decide
  scenes := by decide
  nodup_uids := by decide
  mem_pool _ := Iff.rfl

/-- Not every export stays in the directory of scenes: the script of this scene is written beside it. -/
theorem not_forall_contained :
    ¬ ∀ (text : String) (p p' : Project) (r : LoadReport) (dir : Path) (options : Options)
      (written : List Path) (scripts : List (String × Script)) (t t' : FileTree),
      Project.ofText text = .ok (p, r) → p.compile options = (.ok scripts, p') →
      (p.writeAll dir options : StateM FileTree _).run t = ((.ok written, p'), t') →
      Contained dir options.indent scripts t t' := by
  intro hall
  have hload := ofText_toText_of_wellFormed wellFormed_escaping
  have hsecond (first second : ByteArray) : ∃ t',
      (outScenes.put ["startup.txt", "scenes", "out"] (.file first)).write (scriptPath (.ofText "out") "../keep")
        second = .ok t' := by
    unfold FileTree.write FileTree.findNode FileTree.find
    rw [FileTree.contains_nul_eq_false (by decide)]
    exact ⟨_, rfl⟩
  have hfits : ∀ s ∈ escaping.scenes, s.FitsIn (default : Options).maxDepth.toNat := by decide
  obtain ⟨written, p', t', hwrite⟩ := exists_writeAll_outScenes wellFormed_escaping hfits rfl hsecond
  obtain ⟨scripts, hcompile, hnames, -, -⟩ := exists_of_writeAll hwrite
  have hcontained := hall _ _ _ _ _ _ _ _ _ _ hload hcompile hwrite
  obtain ⟨s, hs, hname⟩ := List.mem_map.mp (hnames ▸ (by decide : "../keep" ∈ escaping.sceneNames))
  obtain ⟨name, hlocate⟩ := hcontained.child _ (List.mem_map_of_mem hs)
  rw [hname] at hlocate
  have hkeep : (scriptPath (.ofText "out") "../keep").locate [] = ["keep.txt", "out"] := by decide
  have hscenes : (scenesDir (.ofText "out")).locate [] = ["scenes", "out"] := by decide
  simp [FileTree.create, hkeep, hscenes] at hlocate

end StoryGraph.Project
