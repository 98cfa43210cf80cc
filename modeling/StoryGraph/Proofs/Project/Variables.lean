import StoryGraph.Proofs.Project.Recompile

/-!
# Variables and their scenes

A variable belongs to a scene by its name alone. So long as variables are added where their scenes are, the
scene of a variable is there: renaming a scene takes its variables along, to a name that no variable can have,
and they go only with their scene. Every variable is declared in one script, that of its scene, or that of the
startup scene if it is global.
-/

namespace StoryGraph

namespace Variable

/-- Whether the scene of a variable is among some names. A global variable has none. -/
def HasOwnerIn (v : Variable) (names : List String) : Prop := ∀ name, v.owner = some name → name ∈ names

/-- A variable where scenes have got other names, or have gone. -/
def follow (f : String → Option String) (v : Variable) : Option Variable :=
  match v.owner with
  | none => some v
  | some name => (f name).map fun name ↦ { v with owner := some name }

/-- The scene in whose script a variable is declared. -/
def home (v : Variable) : String := v.owner.getD Project.startupName

def declaration (v : Variable) : Directive :=
  if v.isGlobal then .create v.name v.value else .temp v.name v.value

@[simp] theorem follow_some (v : Variable) : v.follow some = some v := by
  obtain ⟨name, value, _ | owner⟩ := v <;> rfl

end Variable

/-- Whether a line declares a variable. -/
def Directive.isDeclaration : Directive → Bool
  | .create .. | .temp .. => true
  | _ => false

/-- What becomes of the name of a scene in an edit. -/
def ProjectEdit.renamed (p : Project) (e : ProjectEdit) (name : String) : Option String :=
  match e, (e.apply p).1 with
  | .removeScene gone, .ok () => if name = gone then none else some name
  | .renameScene old new, .ok () => some (if name = old then new else name)
  | _, _ => some name

namespace Project

variable {p p' : Project}

/-- A project that has come from a new one by edits, and by variables that were added where their scenes
were. -/
inductive Built : Project → Prop where
  | create (title author : String) : Built (create title author)
  | edit {p : Project} (h : Built p) (e : ProjectEdit) : Built (e.apply p).2
  | declare {p : Project} (h : Built p) (v : Variable) : v.HasOwnerIn p.sceneNames → Built (p.addVariable v)

theorem Built.wellFormed (h : Built p) : p.WellFormed ∧ startupName ∈ p.sceneNames := by
  induction h with
  | create title author => exact ⟨wellFormed_create title author, List.mem_cons_self⟩
  | edit _ e ih =>
      obtain ⟨hwf, hstartup⟩ := ih.1.apply e
      exact ⟨hwf, hstartup ih.2⟩
  | declare _ v _ ih =>
      obtain ⟨⟨hnames, hscenes, huids, hpool⟩, hstartup⟩ := ih
      exact ⟨⟨hnames, hscenes, huids, hpool⟩, hstartup⟩

/-! ## Edits -/

/-- An edit that fails leaves all names. -/
theorem renamed_of_apply_eq_error {e : ProjectEdit} {error : Error} (h : (e.apply p).1 = .error error) :
    e.renamed p = some := by
  funext name
  unfold ProjectEdit.renamed
  rw [h]
  cases e <;> rfl

/-- `Follows p f p'`: scenes have got other names or have gone, and the variables with them. -/
structure Follows (p : Project) (f : String → Option String) (p' : Project) : Prop where
  vars : p'.vars = p.vars.filterMap (·.follow f)
  stays : ∀ name ∈ p.sceneNames, ∀ name', f name = some name' → name' ∈ p'.sceneNames
  goes : ∀ name ∈ p.sceneNames, f name = none → name ∉ p'.sceneNames
  /-- No two scenes come to have one name. -/
  injective : ∀ name ∈ p.sceneNames, ∀ name' ∈ p.sceneNames, f name = f name' → name = name'

theorem Follows.of_vars_eq (hvars : p'.vars = p.vars) (hnames : p.sceneNames ⊆ p'.sceneNames) :
    Follows p some p' := by
  refine ⟨?_, ?_, nofun, fun _ _ _ _ ↦ Option.some.inj⟩
  · simp [hvars]
  · rintro name hname _ ⟨⟩
    exact hnames hname

theorem Follows.refl (p : Project) : Follows p some p := .of_vars_eq rfl (List.Subset.refl _)

theorem mem_sceneNames_of_perm {s : Scene} {rest : List Scene} (hperm : p.scenes.Perm (s :: rest))
    {name : String} : name ∈ p.sceneNames ↔ name = s.name ∨ name ∈ rest.map (·.name) := by
  rw [(sceneNames_perm hperm).mem_iff, List.map_cons, List.mem_cons]

theorem follow_rename (old new : String) (v : Variable) :
    v.follow (fun name ↦ some (if name = old then new else name)) = some (renameOwner old new v) := by
  obtain ⟨name, value, _ | owner⟩ := v
  · rfl
  · by_cases howner : owner = old <;> simp [Variable.follow, renameOwner, howner]

theorem follow_remove (gone : String) (v : Variable) :
    v.follow (fun name ↦ if name = gone then none else some name) =
      if v.owner = some gone then none else some v := by
  obtain ⟨name, value, _ | owner⟩ := v
  · rfl
  · by_cases howner : owner = gone <;> simp [Variable.follow, howner]

/-- The variables of a scene that is renamed go with it. -/
theorem follows_renameScene {old new : String} (hrename : p.renameScene old new = .ok p') :
    Follows p (fun name ↦ some (if name = old then new else name)) p' := by
  unfold renameScene at hrename
  split at hrename
  · rename_i heq
    obtain rfl := Except.ok.inj hrename
    have hsame : (fun name ↦ some (if name = old then new else name)) = some := by
      funext name
      split <;> simp [*]
    rw [hsame]
    exact .refl p
  · split at hrename
    · contradiction
    · obtain ⟨_, hnew, hrename⟩ := bind_eq_ok.mp hrename
      obtain ⟨s, hs, hrename⟩ := bind_eq_ok.mp hrename
      obtain rfl := Except.ok.inj hrename
      obtain ⟨rfl, rest, hperm, -, hupdate⟩ := exists_perm_of_scene? (scene?_of_scene hs)
      have hfree := not_mem_sceneNames_of_requireNewName hnew
      refine ⟨?_, ?_, nofun, ?_⟩
      · show p.vars.map (renameOwner s.name new) = _
        rw [← List.filterMap_eq_map]
        refine List.filterMap_congr ?_
        intro v _
        exact (follow_rename s.name new v).symm
      · rintro name hname _ ⟨⟩
        refine (mem_sceneNames_of_perm (hupdate _)).mpr ?_
        split
        · exact .inl rfl
        · rename_i hne
          exact .inr (((mem_sceneNames_of_perm hperm).mp hname).resolve_left hne)
      · -- the new name is no name of a scene, so it is not met by a scene that keeps its own
        intro name hname name' hname' heq
        have heq := Option.some.inj heq
        by_cases hold : name = s.name
        · by_cases hold' : name' = s.name
          · rw [hold, hold']
          · rw [if_pos hold, if_neg hold'] at heq
            exact absurd (heq ▸ hname') hfree
        · by_cases hold' : name' = s.name
          · rw [if_neg hold, if_pos hold'] at heq
            exact absurd (heq ▸ hname) hfree
          · rwa [if_neg hold, if_neg hold'] at heq

/-- The variables of a scene that is removed go with it, and no others. -/
theorem WellFormed.follows_removeScene (h : p.WellFormed) {gone : String} {s : Scene}
    (hremove : p.removeScene gone = .ok (s, p')) :
    Follows p (fun name ↦ if name = gone then none else some name) p' := by
  unfold Project.removeScene at hremove
  split at hremove
  · contradiction
  · obtain ⟨t, ht, hremove⟩ := bind_eq_ok.mp hremove
    obtain ⟨rfl, rfl⟩ := Prod.mk.inj (Except.ok.inj hremove)
    obtain ⟨rfl, rest, hperm, herase, -⟩ := exists_perm_of_scene? (scene?_of_scene ht)
    obtain ⟨hapart, -⟩ := h.of_perm_cons hperm
    refine ⟨?_, ?_, ?_, ?_⟩
    · show p.vars.filter _ = _
      rw [← List.filterMap_eq_filter]
      refine List.filterMap_congr ?_
      intro v _
      rw [follow_remove]
      by_cases howner : v.owner = some t.name <;> simp [Option.guard, howner]
    · intro name hname name' heq
      split at heq
      · contradiction
      · rename_i hne
        obtain rfl := Option.some.inj heq
        have hrest := ((mem_sceneNames_of_perm hperm).mp hname).resolve_left hne
        exact (sceneNames_perm herase).mem_iff.mpr hrest
    · intro name _ heq
      split at heq
      · rename_i hname
        rw [(sceneNames_perm herase).mem_iff, hname]
        exact hapart.not_mem_names
      · contradiction
    · intro name hname name' hname' heq
      by_cases hgone : name = t.name
      · by_cases hgone' : name' = t.name
        · rw [hgone, hgone']
        · simp [hgone, hgone'] at heq
      · by_cases hgone' : name' = t.name
        · simp [hgone, hgone'] at heq
        · simpa [hgone, hgone'] using heq

/-- In any edit, whether it succeeds or fails, variables follow their scenes. -/
theorem WellFormed.follows_apply (h : p.WellFormed) (e : ProjectEdit) :
    Follows p (e.renamed p) (e.apply p).2 := by
  cases e with
  | addScene name =>
      refine of_attempt_map (P := Follows p some) (.refl p) fun a hadd ↦ ?_
      obtain ⟨_, -, hadd⟩ := bind_eq_ok.mp hadd
      obtain ⟨_, -, hadd⟩ := bind_eq_ok.mp hadd
      obtain rfl := Except.ok.inj hadd
      refine .of_vars_eq rfl ?_
      simp [sceneNames]
  | moveSceneUp name =>
      refine of_attempt (P := Follows p some) (.refl p) fun p' hmove ↦ ?_
      obtain ⟨i, -, hmove⟩ := bind_eq_ok.mp hmove
      cases i with
      | zero =>
          obtain rfl := Except.ok.inj hmove
          exact .refl p
      | succ i =>
          obtain rfl := Except.ok.inj hmove
          exact .of_vars_eq rfl (sceneNames_perm (swapAt_perm i p.scenes)).symm.subset
  | moveSceneDown name =>
      refine of_attempt (P := Follows p some) (.refl p) fun p' hmove ↦ ?_
      obtain ⟨i, -, hmove⟩ := bind_eq_ok.mp hmove
      obtain rfl := Except.ok.inj hmove
      exact .of_vars_eq rfl (sceneNames_perm (swapAt_perm i p.scenes)).symm.subset
  | renameScene old new =>
      cases hrename : p.renameScene old new with
      | error e =>
          have hsame : (ProjectEdit.renameScene old new).renamed p = some :=
            renamed_of_apply_eq_error (by rw [ProjectEdit.apply, hrename]; rfl)
          rw [hsame, ProjectEdit.apply, hrename]
          exact .refl p
      | ok p' =>
          have hrenamed : (ProjectEdit.renameScene old new).renamed p =
              fun name ↦ some (if name = old then new else name) := by
            funext name
            simp [ProjectEdit.renamed, ProjectEdit.apply, hrename, attempt]
          rw [hrenamed, ProjectEdit.apply, hrename]
          exact follows_renameScene hrename
  | removeScene gone =>
      cases hremove : p.removeScene gone with
      | error e =>
          have hsame : (ProjectEdit.removeScene gone).renamed p = some :=
            renamed_of_apply_eq_error (by rw [ProjectEdit.apply, hremove]; rfl)
          rw [hsame, ProjectEdit.apply, hremove]
          exact .refl p
      | ok r =>
          have hrenamed : (ProjectEdit.removeScene gone).renamed p =
              fun name ↦ if name = gone then none else some name := by
            funext name
            simp [ProjectEdit.renamed, ProjectEdit.apply, hremove, attempt, Except.map]
          rw [hrenamed, ProjectEdit.apply, hremove]
          exact h.follows_removeScene hremove
  | inScene name edit =>
      show Follows p some (p.editScene name fun d ↦ edit.apply d).2
      unfold Project.editScene
      split
      · exact .refl p
      · rename_i s hs
        obtain ⟨hname, rest, hperm, -⟩ := exists_perm_of_scene? hs
        obtain ⟨-, hsound⟩ := h.of_perm_cons hperm
        refine .of_vars_eq rfl ?_
        have hnames := sceneNames_updateScene (p := p) ((hsound.apply edit).name_eq.trans hname)
        exact (List.Perm.of_eq hnames.symm).subset

/-! ## Owners -/

/-- Where variables follow their scenes, the scene of a variable is still there. -/
theorem Follows.hasOwnerIn {f : String → Option String} (h : Follows p f p')
    (hp : ∀ v ∈ p.vars, v.HasOwnerIn p.sceneNames) : ∀ v ∈ p'.vars, v.HasOwnerIn p'.sceneNames := by
  intro v' hv' name' howner'
  rw [h.vars] at hv'
  obtain ⟨v, hv, hfollow⟩ := List.mem_filterMap.mp hv'
  unfold Variable.follow at hfollow
  split at hfollow
  · rename_i hglobal
    obtain rfl := Option.some.inj hfollow
    cases hglobal.symm.trans howner'
  · rename_i name howner
    obtain ⟨name'', hname, rfl⟩ := Option.map_eq_some_iff.mp hfollow
    obtain rfl := Option.some.inj howner'
    exact h.stays name (hp v hv name howner) name'' hname

/-- No variable is an orphan. -/
theorem Built.hasOwnerIn (h : Built p) : ∀ v ∈ p.vars, v.HasOwnerIn p.sceneNames := by
  induction h with
  | create title author => exact nofun
  | edit h e ih => exact (h.wellFormed.1.follows_apply e).hasOwnerIn ih
  | declare _ v hv ih =>
      intro w hw
      rcases List.mem_append.mp hw with hw | hw
      · exact ih w hw
      · obtain rfl := List.mem_singleton.mp hw
        exact hv

/-! ## Declarations -/

/-- A scene declares its own variables in their order, behind the global ones if it is the startup scene. -/
theorem declarations_eq (p : Project) (name : String) :
    p.declarations name = ((p.vars.filter fun v ↦ v.isGlobal ∧ name = startupName) ++
      p.vars.filter (·.owner = some name)).map Variable.declaration := by
  have hlocal : p.localDeclarations name =
      (p.vars.filter (·.owner = some name)).map Variable.declaration := by
    refine List.map_congr_left ?_
    intro v hv
    have howner : v.owner = some name := by simpa using (List.mem_filter.mp hv).2
    simp [Variable.declaration, Variable.isGlobal, howner]
  have hglobal : p.globalDeclarations = (p.vars.filter (·.isGlobal)).map Variable.declaration := by
    refine List.map_congr_left ?_
    intro v hv
    exact (if_pos (List.mem_filter.mp hv).2).symm
  rw [declarations, hlocal, hglobal, List.map_append]
  by_cases hname : name = startupName <;> simp [hname]

theorem isDeclaration_declaration (v : Variable) : v.declaration.isDeclaration := by
  unfold Variable.declaration
  split <;> rfl

/-- The lines of a preamble that declare variables are the declarations of the scene. -/
theorem filter_isDeclaration_preamble (p : Project) (name : String) :
    (p.preamble name).filter (·.isDeclaration) = p.declarations name := by
  have hpage : p.titlePage.filter (·.isDeclaration) = [] := by
    simp [titlePage, Directive.isDeclaration, List.filter_map, Function.comp_def]
  have hall : (p.declarations name).filter (·.isDeclaration) = p.declarations name := by
    rw [declarations_eq]
    refine List.filter_eq_self.mpr (List.forall_mem_map.mpr ?_)
    exact fun v _ ↦ isDeclaration_declaration v
  have hblank :
      (if p.declarations name = [] then [] else [Directive.blank]).filter (·.isDeclaration) = [] := by
    split <;> rfl
  rw [preamble, List.filter_append, List.filter_append, hall, hblank, List.append_nil]
  split
  · rw [hpage, List.nil_append]
  · rfl

/-- What is grouped by a key is all there, if each key comes once. -/
theorem flatMap_filter_perm {α : Type} (key : α → String) {names : List String} (hnodup : names.Nodup)
    {xs : List α} (hxs : ∀ x ∈ xs, key x ∈ names) :
    (names.flatMap fun name ↦ xs.filter (key · = name)).Perm xs := by
  have hgroups : (names.flatMap fun name ↦ xs.filter (key · = name)).Perm (xs.filter (key · ∈ names)) := by
    clear hxs
    induction names with
    | nil => simp
    | cons name names ih =>
        obtain ⟨hname, hnodup⟩ := List.nodup_cons.mp hnodup
        have hfirst : (xs.filter (key · ∈ name :: names)).filter (key · = name) =
            xs.filter (key · = name) := by
          rw [List.filter_filter]
          refine List.filter_congr ?_
          intro x _
          by_cases hx : key x = name <;> simp [hx]
        have hothers : ((xs.filter (key · ∈ name :: names)).filter fun x ↦ !decide (key x = name)) =
            xs.filter (key · ∈ names) := by
          rw [List.filter_filter]
          refine List.filter_congr ?_
          intro x _
          by_cases hx : key x = name <;> simp [hx, hname]
        calc
          (List.flatMap _ (name :: names)).Perm (xs.filter (key · = name) ++ xs.filter (key · ∈ names)) :=
            (ih hnodup).append_left _
          _ = (xs.filter (key · ∈ name :: names)).filter (key · = name) ++
              ((xs.filter (key · ∈ name :: names)).filter fun x ↦ !decide (key x = name)) := by
            rw [hfirst, hothers]
          List.Perm _ (xs.filter (key · ∈ name :: names)) := List.filter_append_perm _ _
  rwa [List.filter_eq_self.mpr (by simpa using hxs)] at hgroups

/-- The declarations of a scene are those of the variables that are at home there. -/
theorem declarations_perm (p : Project) (name : String) :
    (p.declarations name).Perm ((p.vars.filter (·.home = name)).map Variable.declaration) := by
  have hglobal : (p.vars.filter (·.home = name)).filter (·.isGlobal) =
      p.vars.filter fun v ↦ v.isGlobal ∧ name = startupName := by
    rw [List.filter_filter]
    refine List.filter_congr ?_
    rintro ⟨_, _, _ | owner⟩ _ <;> simp [Variable.isGlobal, Variable.home, eq_comm]
  have howned : (p.vars.filter (·.home = name)).filter (!·.isGlobal) =
      p.vars.filter (·.owner = some name) := by
    rw [List.filter_filter]
    refine List.filter_congr ?_
    rintro ⟨_, _, _ | owner⟩ _
    · simp [Variable.isGlobal]
    · by_cases howner : owner = name <;> simp [Variable.isGlobal, Variable.home, howner]
  rw [declarations_eq, ← hglobal, ← howned]
  exact (List.filter_append_perm _ _).map _

/-- All scenes together declare each variable once. -/
theorem Built.declarations_perm (h : Built p) :
    (p.sceneNames.flatMap p.declarations).Perm (p.vars.map Variable.declaration) := by
  have hhome : ∀ v ∈ p.vars, v.home ∈ p.sceneNames := by
    intro v hv
    unfold Variable.home
    cases howner : v.owner with
    | none => exact h.wellFormed.2
    | some name => exact h.hasOwnerIn v hv name howner
  calc
    (p.sceneNames.flatMap p.declarations).Perm (p.sceneNames.flatMap fun name ↦
        (p.vars.filter (·.home = name)).map Variable.declaration) :=
      List.Perm.flatMap_left _ fun name _ ↦ p.declarations_perm name
    _ = (p.sceneNames.flatMap fun name ↦ p.vars.filter (·.home = name)).map Variable.declaration :=
      List.map_flatMap.symm
    List.Perm _ (p.vars.map Variable.declaration) :=
      (flatMap_filter_perm Variable.home h.wellFormed.1.nodup_names hhome).map _

/-- The script of a scene has the preamble that the scene has in the project. -/
theorem preamble_of_compileScenes {options : Options} {names : List String} {scripts : List (String × Script)}
    (h : p.compileScenes options names = (.ok scripts, p')) :
    ∀ s ∈ scripts, s.2.preamble = p.preamble s.1 := by
  induction names generalizing p scripts with
  | nil =>
      obtain ⟨hscripts, -⟩ := Prod.mk.inj h
      obtain rfl := Except.ok.inj hscripts
      exact nofun
  | cons name names ih =>
      obtain ⟨script, p₁, rest, hscene, hrest, rfl⟩ := compileScenes_cons_eq_ok_iff.mp h
      have hpreamble := preamble_of_unordered (hscene ▸ (p.unordered_compileScene name options).1)
      refine List.forall_mem_cons.mpr ⟨?_, ?_⟩
      · obtain ⟨_, _, _, code, _, _, _, _, _, hscript⟩ := compileScene_eq_ok_iff.mp hscene
        rw [hscript]
        exact hpreamble name
      · intro s hs
        rw [ih hrest s hs, hpreamble]

/-- Variables are not lost, have no scene that is not there, and are declared once. They follow their scenes
through every edit, and go only with a scene that is removed. Where the project compiles, each script declares
its own variables in their order, that of the startup scene behind the global ones, and all scripts together
declare each variable once and nothing else. -/
theorem Built.variables_kept_and_declared (h : Built p) :
    (∀ v ∈ p.vars, v.HasOwnerIn p.sceneNames) ∧
      (∀ e : ProjectEdit, Follows p (e.renamed p) (e.apply p).2 ∧
        ∀ name, e.renamed p name = none → e = .removeScene name) ∧
      ∀ options scripts p', p.compile options = (.ok scripts, p') →
        scripts.map (·.1) = p.sceneNames ∧ p.sceneNames.Nodup ∧ startupName ∈ p.sceneNames ∧
          (∀ s ∈ scripts, s.2.preamble.filter (·.isDeclaration) =
            ((p.vars.filter fun v ↦ v.isGlobal ∧ s.1 = startupName) ++
              p.vars.filter (·.owner = some s.1)).map Variable.declaration) ∧
          (scripts.flatMap fun s ↦ s.2.preamble.filter (·.isDeclaration)).Perm
            (p.vars.map Variable.declaration) := by
  obtain ⟨hwf, hstartup⟩ := h.wellFormed
  refine ⟨h.hasOwnerIn, fun e ↦ ⟨hwf.follows_apply e, ?_⟩, ?_⟩
  · intro name hname
    unfold ProjectEdit.renamed at hname
    split at hname
    · split at hname
      · rename_i heq
        rw [heq]
      · contradiction
    · contradiction
    · contradiction
  · intro options scripts p' hcompile
    have hnames := map_fst_of_compileScenes hcompile
    have hpreamble : ∀ s ∈ scripts, s.2.preamble.filter (·.isDeclaration) = p.declarations s.1 := by
      intro s hs
      rw [preamble_of_compileScenes hcompile s hs, filter_isDeclaration_preamble]
    refine ⟨hnames, hwf.nodup_names, hstartup, ?_, ?_⟩
    · intro s hs
      rw [hpreamble s hs, declarations_eq]
    · have hall : (scripts.flatMap fun s ↦ s.2.preamble.filter (·.isDeclaration)) =
          p.sceneNames.flatMap p.declarations := by
        rw [List.flatMap_congr hpreamble, ← hnames, List.flatMap_map]
      rw [hall]
      exact h.declarations_perm

/-- A scene gets a variable and then another name. -/
def lamps : Project :=
  let hall := ((ProjectEdit.addScene "hall").apply (create "Lamps" "")).2
  let lamp := (hall.addVariable ⟨"lamp", "true", some "hall"⟩).addVariable ⟨"gold", "0", none⟩
  ((ProjectEdit.renameScene "hall" "attic").apply lamp).2

theorem built_lamps : Built lamps := by
  refine .edit (.declare (.declare (.edit (.create "Lamps" "") _) _ ?_) _ ?_) _
  · rintro _ ⟨⟩
    decide
  · rintro _ ⟨⟩

theorem variables_lamps :
    lamps.vars = [⟨"lamp", "true", some "attic"⟩, ⟨"gold", "0", none⟩] ∧
      ∃ scripts p', lamps.compile default = (.ok scripts, p') ∧
        (scripts.flatMap fun s ↦ s.2.preamble.filter (·.isDeclaration)).Perm
          [.temp "lamp" "true", .create "gold" "0"] := by
  have hvars : lamps.vars = [⟨"lamp", "true", some "attic"⟩, ⟨"gold", "0", none⟩] := by decide
  refine ⟨hvars, ?_⟩
  obtain ⟨scripts, p', hcompile⟩ := built_lamps.wellFormed.1.exists_compile default (by decide)
  obtain ⟨-, -, hdeclared⟩ := built_lamps.variables_kept_and_declared
  obtain ⟨-, -, -, -, hperm⟩ := hdeclared default scripts p' hcompile
  rw [hvars] at hperm
  exact ⟨scripts, p', hcompile, hperm⟩

/-- A variable of the startup scene, and a global one after it. -/
def moods : Project :=
  ((create "Moods" "").addVariable ⟨"mood", "1", some startupName⟩).addVariable ⟨"gold", "0", none⟩

theorem built_moods : Built moods := by
  refine .declare (.declare (.create "Moods" "") _ ?_) _ ?_
  · rintro _ ⟨⟩
    decide
  · rintro _ ⟨⟩

/-- Not every script declares its variables in the order that they have in the project: in the startup scene
the global ones come first. -/
theorem not_forall_declarations_sublist :
    ¬ ∀ (p p' : Project) (options : Options) (scripts : List (String × Script)), Built p →
      p.compile options = (.ok scripts, p') →
      ∀ s ∈ scripts, (s.2.preamble.filter (·.isDeclaration)).Sublist (p.vars.map Variable.declaration) := by
  intro hall
  obtain ⟨scripts, p', hcompile⟩ := built_moods.wellFormed.1.exists_compile default (by decide)
  obtain ⟨s, hs, hname⟩ := List.mem_map.mp
    (map_fst_of_compileScenes hcompile ▸ (by decide : startupName ∈ moods.sceneNames))
  have hsublist := hall moods p' default scripts built_moods hcompile s hs
  rw [preamble_of_compileScenes hcompile s hs, hname] at hsublist
  revert hsublist
  decide

end Project

end StoryGraph
