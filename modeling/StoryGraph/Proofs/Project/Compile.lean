import StoryGraph.Project.Compile
import StoryGraph.Proofs.Project.Edit

/-!
# Compiling a scene of a project

What the compiled scene leaves in the project: the scene of that name in order, and nothing else. Preambles
do not depend on that, so a scene compiles to the same whatever has been compiled before it.
-/

namespace StoryGraph.Project

variable {p p' q : Project} {name : String} {options : Options} {script : Script}

/-! ## Scenes that are put in place -/

/-- The scene that is put in place of another has the name of that one. -/
theorem name_of_computeOrder {s s' : Scene} {count : Nat} (hs : p.scene? name = some s)
    (hcount : s.computeOrder = .ok (count, s')) : s'.name = name := by
  have hname : s.name = name := by simpa using List.find?_some hs
  exact (Scene.of_computeOrder hcount).1.trans hname

theorem sceneNames_updateScene {s : Scene} (hname : s.name = name) :
    (p.updateScene name fun _ ↦ s).sceneNames = p.sceneNames := by
  refine map_updateFirst ?_ p.scenes
  intro x hx
  rw [hname]
  simpa [eq_comm] using hx

theorem scene?_updateScene {s s' : Scene} (hs : p.scene? name = some s) (hname : s'.name = name) :
    (p.updateScene name fun _ ↦ s').scene? name = some s' := by
  unfold scene? updateScene
  rw [find?_updateFirst (by simp [hname])]
  exact congrArg (Option.map _) hs

theorem scene?_updateScene_of_ne {s' : Scene} {other : String} (hname : s'.name = name)
    (hne : other ≠ name) : (p.updateScene name fun _ ↦ s').scene? other = p.scene? other := by
  refine find?_updateFirst_of_disjoint ?_ p.scenes
  intro x hx
  obtain rfl : x.name = name := by simpa using hx
  simp [hname, hne.symm]

/-- The preamble of a scene does not depend on what is in the scenes. -/
theorem preamble_eq_of_sceneNames (htitle : p'.title = p.title) (hauthor : p'.author = p.author)
    (hvars : p'.vars = p.vars) (hnames : p'.sceneNames = p.sceneNames) (name : String) :
    p'.preamble name = p.preamble name := by
  have hpage : p'.titlePage = p.titlePage := by rw [titlePage, titlePage, htitle, hauthor, hnames]
  have hdeclarations : p'.declarations name = p.declarations name := by
    simp only [declarations, globalDeclarations, localDeclarations, hvars]
  rw [preamble, preamble, hpage, hdeclarations]

theorem preamble_updateScene {s : Scene} (hname : s.name = name) (other : String) :
    (p.updateScene name fun _ ↦ s).preamble other = p.preamble other := by
  refine preamble_eq_of_sceneNames ?_ ?_ ?_ (sceneNames_updateScene hname) other <;> rfl

/-! ## Compiling -/

theorem orderScene_of_scene?_eq_none (h : p.scene? name = none) :
    p.orderScene name = .error (.sceneNotFound name) := by
  rw [orderScene, scene, h]
  rfl

theorem orderScene_of_scene? {s : Scene} (hs : p.scene? name = some s) :
    p.orderScene name = s.computeOrder.map fun r ↦ (r.2, p.updateScene name fun _ ↦ r.2) := by
  rw [orderScene, scene, hs]
  show (s.computeOrder >>= fun r ↦ _) = _
  cases s.computeOrder <;> rfl

theorem of_orderScene {s' : Scene} (h : p.orderScene name = .ok (s', p')) :
    ∃ s count, p.scene? name = some s ∧ s.computeOrder = .ok (count, s') ∧
      p' = p.updateScene name fun _ ↦ s' := by
  obtain ⟨s, hs, h⟩ := bind_eq_ok.mp h
  obtain ⟨⟨count, s''⟩, horder, h⟩ := bind_eq_ok.mp h
  obtain ⟨rfl, rfl⟩ := Prod.mk.inj (Except.ok.inj h)
  exact ⟨s, count, scene?_of_scene hs, horder, rfl⟩

theorem compileScene_of_orderScene_eq_error {e : Error} (h : p.orderScene name = .error e) :
    p.compileScene name options = (.error e, p) := by
  rw [compileScene, h]

/-- A scene that can be ordered stays so, and what it comes to is what emission comes to. -/
theorem compileScene_of_orderScene {s : Scene} (h : p.orderScene name = .ok (s, p')) :
    p.compileScene name options =
      ((s.emit s.sequence options.maxDepth.toNat).map fun r ↦ ⟨p'.preamble name, r.1⟩, p') := by
  rw [compileScene, h]
  simp only
  cases s.emit s.sequence options.maxDepth.toNat <;> rfl

/-- A scene compiles exactly if it can be ordered and then emitted. -/
theorem compileScene_eq_ok_iff :
    p.compileScene name options = (.ok script, p') ↔
      ∃ s count s' code policy, p.scene? name = some s ∧ s.computeOrder = .ok (count, s') ∧
        p' = p.updateScene name (fun _ ↦ s') ∧
        s'.emit s'.sequence options.maxDepth.toNat = .ok (code, policy) ∧
        script = ⟨p'.preamble name, code⟩ := by
  constructor
  · intro h
    cases horder : p.orderScene name with
    | error e =>
        rw [compileScene_of_orderScene_eq_error horder] at h
        simp at h
    | ok result =>
        obtain ⟨s', p₁⟩ := result
        obtain ⟨s, count, hs, hcount, rfl⟩ := of_orderScene horder
        rw [compileScene_of_orderScene horder] at h
        obtain ⟨hscript, rfl⟩ := Prod.mk.inj h
        obtain ⟨⟨code, policy⟩, hemit, rfl⟩ := map_eq_ok.mp hscript
        exact ⟨s, count, s', code, policy, hs, hcount, rfl, hemit, rfl⟩
  · rintro ⟨s, count, s', code, policy, hs, hcount, rfl, hemit, rfl⟩
    have horder : p.orderScene name = .ok (s', p.updateScene name fun _ ↦ s') := by
      rw [orderScene_of_scene? hs, hcount]
      rfl
    rw [compileScene_of_orderScene horder, hemit]
    rfl

/-- What a scene compiles to depends on that scene and on its preamble. -/
theorem fst_compileScene_congr (hscene : q.scene? name = p.scene? name)
    (hpreamble : q.preamble name = p.preamble name) :
    (q.compileScene name options).1 = (p.compileScene name options).1 := by
  cases hs : p.scene? name with
  | none =>
      rw [compileScene_of_orderScene_eq_error (orderScene_of_scene?_eq_none hs),
        compileScene_of_orderScene_eq_error (orderScene_of_scene?_eq_none (hscene.trans hs))]
  | some s =>
      have hp := orderScene_of_scene? hs
      have hq := orderScene_of_scene? (hscene.trans hs)
      cases horder : s.computeOrder with
      | error e =>
          rw [horder] at hp hq
          rw [compileScene_of_orderScene_eq_error hp, compileScene_of_orderScene_eq_error hq]
      | ok r =>
          obtain ⟨count, s'⟩ := r
          have hname := name_of_computeOrder hs horder
          rw [horder] at hp hq
          rw [compileScene_of_orderScene hp, compileScene_of_orderScene hq, preamble_updateScene hname,
            preamble_updateScene hname, hpreamble]

theorem compileScenes_cons_of_error {e : Error} (h : p.compileScene name options = (.error e, p'))
    (names : List String) : p.compileScenes options (name :: names) = (.error e, p') := by
  rw [compileScenes, h]

theorem compileScenes_cons_of_ok (h : p.compileScene name options = (.ok script, p'))
    (names : List String) : p.compileScenes options (name :: names) =
      ((p'.compileScenes options names).1.map ((name, script) :: ·), (p'.compileScenes options names).2) := by
  rw [compileScenes, h]
  dsimp only
  rcases p'.compileScenes options names with ⟨_ | _, _⟩ <;> rfl

/-- Scenes compile one after the other, each in the project that the one before has left. -/
theorem compileScenes_cons_eq_ok_iff {names : List String} {scripts : List (String × Script)} :
    p.compileScenes options (name :: names) = (.ok scripts, p') ↔
      ∃ script p₁ rest, p.compileScene name options = (.ok script, p₁) ∧
        p₁.compileScenes options names = (.ok rest, p') ∧ scripts = (name, script) :: rest := by
  rcases hscene : p.compileScene name options with ⟨e | script, p₁⟩
  · simp [compileScenes_cons_of_error hscene]
  · rw [compileScenes_cons_of_ok hscene]
    rcases hrest : p₁.compileScenes options names with ⟨_ | rest, p₂⟩
    · simp [Except.map, hrest]
    · constructor
      · intro h
        obtain ⟨hscripts, rfl⟩ := Prod.mk.inj h
        exact ⟨script, p₁, rest, rfl, hrest, (Except.ok.inj hscripts).symm⟩
      · rintro ⟨_, _, rest', ⟨⟩, hrest', rfl⟩
        obtain ⟨hok, rfl⟩ := Prod.mk.inj (hrest.symm.trans hrest')
        obtain rfl := Except.ok.inj hok
        rfl

/-- Scripts come with the names of their scenes. -/
theorem map_fst_of_compileScenes {names : List String} {scripts : List (String × Script)}
    (h : p.compileScenes options names = (.ok scripts, p')) : scripts.map (·.1) = names := by
  induction names generalizing p scripts with
  | nil =>
      obtain ⟨hscripts, -⟩ := Prod.mk.inj h
      obtain rfl := Except.ok.inj hscripts
      rfl
  | cons name names ih =>
      obtain ⟨script, p₁, rest, -, hrest, rfl⟩ := compileScenes_cons_eq_ok_iff.mp h
      rw [List.map_cons, ih hrest]

/-! ## What compiling leaves behind -/

/-- A project as it is without the orders of its bubbles. -/
def unordered (p : Project) : Project := { p with scenes := p.scenes.map (·.unordered) }

theorem sceneNames_of_unordered (h : p'.unordered = p.unordered) : p'.sceneNames = p.sceneNames := by
  have hnames := congrArg (fun q : Project ↦ q.scenes.map (·.name)) h
  simpa [unordered, sceneNames, Scene.unordered, List.map_map, Function.comp_def] using hnames

theorem preamble_of_unordered (h : p'.unordered = p.unordered) (name : String) :
    p'.preamble name = p.preamble name :=
  preamble_eq_of_sceneNames (congrArg (·.title) h) (congrArg (·.author) h) (congrArg (·.vars) h)
    (sceneNames_of_unordered h) name

/-- Compiling a scene, also in vain, gives orders at most, and those in the scene of that name. -/
theorem unordered_compileScene (p : Project) (name : String) (options : Options) :
    (p.compileScene name options).2.unordered = p.unordered ∧
      ∀ k, name ∈ p.sceneNames.take k → (p.compileScene name options).2.scenes.drop k = p.scenes.drop k := by
  cases horder : p.orderScene name with
  | error e =>
      rw [compileScene_of_orderScene_eq_error horder]
      exact ⟨rfl, fun _ _ ↦ rfl⟩
  | ok r =>
      obtain ⟨s', p'⟩ := r
      rw [compileScene_of_orderScene horder]
      obtain ⟨s, count, hs, hcount, rfl⟩ := of_orderScene horder
      constructor
      · refine congrArg (Project.mk _ _ · _ _) (map_updateFirst_of_find? ?_)
        intro x hx
        obtain rfl : s = x := Option.some.inj (hs.symm.trans hx)
        exact Scene.unordered_of_computeOrder hcount
      · intro k hk
        refine drop_updateFirst ?_
        rw [sceneNames, ← List.map_take] at hk
        obtain ⟨x, hx, hname⟩ := List.mem_map.mp hk
        exact ⟨x, hx, decide_eq_true hname⟩

/-- Compiling scenes, also in vain, gives orders at most, and none behind those scenes. -/
theorem unordered_compileScenes (p : Project) (options : Options) (names : List String) :
    (p.compileScenes options names).2.unordered = p.unordered ∧ ∀ k, names ⊆ p.sceneNames.take k →
      (p.compileScenes options names).2.scenes.drop k = p.scenes.drop k := by
  induction names generalizing p with
  | nil => exact ⟨rfl, fun _ _ ↦ rfl⟩
  | cons name names ih =>
      obtain ⟨hunordered, hdrop⟩ := p.unordered_compileScene name options
      rcases hscene : p.compileScene name options with ⟨script, p₁⟩
      rw [hscene] at hunordered hdrop
      cases script with
      | error e =>
          rw [compileScenes_cons_of_error hscene]
          exact ⟨hunordered, fun k hk ↦ hdrop k (hk List.mem_cons_self)⟩
      | ok script =>
          obtain ⟨hunordered', hdrop'⟩ := ih p₁
          rw [sceneNames_of_unordered hunordered] at hdrop'
          rw [compileScenes_cons_of_ok hscene]
          refine ⟨hunordered'.trans hunordered, ?_⟩
          intro k hk
          obtain ⟨hname, hnames⟩ := List.cons_subset.mp hk
          exact (hdrop' k hnames).trans (hdrop k hname)

/-- Compiling a scene keeps the scenes well-formed. -/
theorem wellFormed_of_compileScene (hp : ∀ s ∈ p.scenes, s.WellFormed)
    (h : p.compileScene name options = (.ok script, p')) : ∀ s ∈ p'.scenes, s.WellFormed := by
  obtain ⟨s, count, s', -, -, hs, hcount, rfl, -⟩ := compileScene_eq_ok_iff.mp h
  obtain ⟨rest, hperm, -, hupdate⟩ := exists_perm_of_find? hs
  intro t ht
  rcases List.mem_cons.mp ((hupdate _).mem_iff.mp ht) with rfl | ht
  · exact (hp s (List.mem_of_find?_eq_some hs)).computeOrder hcount
  · exact hp t (hperm.mem_iff.mpr (List.mem_cons_of_mem _ ht))

/-- `p.Keeps q names`: a project has the same of some scenes as another, and the same preambles. -/
structure Keeps (p q : Project) (names : List String) : Prop where
  wellFormed : ∀ s ∈ q.scenes, s.WellFormed
  scene? : ∀ name ∈ names, q.scene? name = p.scene? name
  preamble : ∀ name, q.preamble name = p.preamble name

theorem WellFormed.keeps (h : p.WellFormed) : p.Keeps p p.sceneNames :=
  ⟨h.scenes, fun _ _ ↦ rfl, fun _ ↦ rfl⟩

/-- Compiling another scene keeps the scenes that are to come. -/
theorem Keeps.compileScene {names : List String} (h : p.Keeps q (name :: names)) (hname : name ∉ names)
    (hcompile : q.compileScene name options = (.ok script, p')) : p.Keeps p' names := by
  obtain ⟨s, count, s', -, -, hs, hcount, rfl, -⟩ := compileScene_eq_ok_iff.mp hcompile
  have hname' := name_of_computeOrder hs hcount
  refine ⟨wellFormed_of_compileScene h.wellFormed hcompile, ?_, ?_⟩
  · intro other hother
    rw [scene?_updateScene_of_ne hname' (ne_of_mem_of_not_mem hother hname)]
    exact h.scene? other (List.mem_cons_of_mem _ hother)
  · intro other
    rw [preamble_updateScene hname', h.preamble]

/-- A script is what its scene compiles to, whatever has been compiled before. -/
theorem Keeps.of_compileScenes {names : List String} (h : p.Keeps q names) (hnodup : names.Nodup)
    {scripts : List (String × Script)} (hscenes : q.compileScenes options names = (.ok scripts, p')) :
    ∀ entry ∈ scripts, (p.compileScene entry.1 options).1 = .ok entry.2 := by
  induction names generalizing q scripts with
  | nil =>
      obtain ⟨hscripts, -⟩ := Prod.mk.inj hscenes
      obtain rfl := Except.ok.inj hscripts
      nofun
  | cons name names ih =>
      obtain ⟨hname, hnodup⟩ := List.nodup_cons.mp hnodup
      obtain ⟨script, p₁, rest, hscene, hrest, rfl⟩ := compileScenes_cons_eq_ok_iff.mp hscenes
      refine List.forall_mem_cons.mpr ⟨?_, ih (h.compileScene hname hscene) hnodup hrest⟩
      rw [← fst_compileScene_congr (h.scene? name List.mem_cons_self) (h.preamble name), hscene]

/-- Where scenes do not compile, those in front of the first that does not do. -/
theorem exists_of_compileScenes_eq_error {names : List String} {e : Error}
    (h : p.compileScenes options names = (.error e, p')) :
    ∃ before name after scripts p₁, names = before ++ name :: after ∧
      p.compileScenes options before = (.ok scripts, p₁) ∧ p₁.compileScene name options = (.error e, p') := by
  induction names generalizing p with
  | nil => cases h
  | cons name names ih =>
      rcases hscene : p.compileScene name options with ⟨e' | script, p₁⟩
      · rw [compileScenes_cons_of_error hscene] at h
        obtain ⟨he, rfl⟩ := Prod.mk.inj h
        obtain rfl := Except.error.inj he
        exact ⟨[], name, names, [], p, rfl, rfl, hscene⟩
      · rw [compileScenes_cons_of_ok hscene] at h
        rcases hscenes : p₁.compileScenes options names with ⟨e' | rest, p₂⟩
        · rw [hscenes] at h
          obtain ⟨he, rfl⟩ := Prod.mk.inj h
          obtain rfl := Except.error.inj he
          obtain ⟨before, failing, after, scripts, p₃, rfl, hbefore, hfailing⟩ := ih hscenes
          exact ⟨name :: before, failing, after, (name, script) :: scripts, p₃, rfl,
            compileScenes_cons_eq_ok_iff.mpr ⟨script, p₁, scripts, hscene, hbefore, rfl⟩, hfailing⟩
        · simp [hscenes, Except.map] at h

end StoryGraph.Project
