import StoryGraph.Command.Run
import StoryGraph.Proofs.Files.Tree
import StoryGraph.Proofs.Project.Recompile
import StoryGraph.Proofs.Project.RoundTrip
import StoryGraph.Proofs.Scene.Traversal
import StoryGraph.Proofs.Script.Jumps

/-!
# Checking and compiling agree

A scene is checked by compiling it, so that checking fails where compiling does. What is reported about a
scene that compiles are the labels of its script, and the bubbles where ordering does not arrive. It is printed
in up to three lines: how large the scene is, the labels if there are any, and those bubbles if there are any.
-/

namespace StoryGraph

/-- The uids where connections end that a walk has taken. -/
def Scene.arrivals (s : Scene) (w : Walk) : List Uid := (s.connections.filter (·.id ∈ w.done)).map (·.target)

/-- The bubbles that cannot be reached are those where ordering does not arrive. -/
theorem Scene.WellFormed.unreachable_eq {s t : Scene} (hs : s.WellFormed) {w : Scene.Walk}
    (hwalk : s.orderWalk = .ok w) {count : Nat} (hcount : s.computeOrder = .ok (count, t)) :
    t.bubbles.filter (·.uid ∉ t.reachable) =
      t.bubbles.filter fun b ↦ b.isStart = false ∧ b.uid ∉ s.arrivals w := by
  obtain ⟨start, hstart, -⟩ := hs.exists_start
  obtain ⟨given, -, rfl⟩ := hs.exists_course hstart hcount
  refine List.filter_congr ?_
  intro b hb
  obtain ⟨b', hb', rfl⟩ := List.mem_map.mp hb
  have hreach := hs.mem_reachable_iff_taken hwalk hb'
  have harrives : b'.uid ∈ s.arrivals w ↔ ∃ c ∈ s.connections, c.id ∈ w.done ∧ c.target = b'.uid := by
    simp [arrivals, and_assoc]
  rw [← harrives] at hreach
  refine decide_eq_decide.mpr ?_
  rw [restamp, reachable_reorder, hreach, not_or, Bool.not_eq_true]
  rfl

/-- `r.Fits s script`: a report is right about a scene and its script. -/
structure SceneReport.Fits (r : SceneReport) (s : Scene) (script : Script) : Prop where
  name : r.name = s.name
  size : r.bubbles = s.bubbles.length ∧ r.connections = s.connections.length
  labels : r.labels.Nodup ∧ ∀ name, name ∈ r.labels ↔ name ∈ labelNames script.code
  /-- The bubbles are those of the scene in order, as they came. -/
  unreachable : ∃ w count t, s.orderWalk = .ok w ∧ s.computeOrder = .ok (count, t) ∧
    r.unreachable = t.bubbles.filter fun b ↦ b.isStart = false ∧ b.uid ∉ s.arrivals w

/-! ## What is printed -/

/-- `Lists title entries lines`: entries are printed in one line behind their title, and if there are none there
is no line. -/
inductive Lists (title : String) : List String → List String → Prop
  | nothing : Lists title [] []
  | line (entry : String) (entries : List String) :
      Lists title (entry :: entries) ["  " ++ title ++ ": " ++ ", ".intercalate (entry :: entries)]

/-- `r.Prints lines`: these are the lines of a report. The name of the scene and how large it is come first, then
the labels, and then the bubbles that are not reached, each with its type. -/
inductive SceneReport.Prints (r : SceneReport) : List String → Prop
  | intro {labels unreachable : List String} (hlabels : Lists "labels" r.labels labels)
      (hunreachable : Lists "unreachable"
        (r.unreachable.map fun b ↦ toString b.uid ++ " (" ++ b.type.name ++ ")") unreachable) :
      r.Prints (("scene '" ++ r.name ++ "': " ++ toString r.bubbles ++ " bubble(s), " ++
        toString r.connections ++ " connection(s)") :: (labels ++ unreachable))

theorem SceneReport.lists_listing (title : String) (entries : List String) :
    Lists title entries (listing title entries) := by
  cases entries with
  | nil => exact .nothing
  | cons entry entries => exact .line entry entries

theorem SceneReport.prints_lines (r : SceneReport) : r.Prints r.lines :=
  .intro (lists_listing "labels" _) (lists_listing "unreachable" _)

namespace Project

variable {p q p' : Project} {name : String} {options : Options} {report : SceneReport} {script : Script}

/-! ## One scene -/

theorem checkScene_of_orderScene_eq_error {e : Error} (h : p.orderScene name = .error e) :
    p.checkScene name options = (.error e, p) := by
  rw [checkScene, h]

/-- A report is made from what emission comes to. -/
theorem checkScene_of_orderScene {s : Scene} (h : p.orderScene name = .ok (s, p')) :
    p.checkScene name options =
      ((s.emit s.sequence options.maxDepth.toNat).map fun r ↦ .ofPolicy s r.2, p') := by
  rw [checkScene, h]
  simp only
  cases s.emit s.sequence options.maxDepth.toNat <;> rfl

/-- Checking a scene comes to what compiling it comes to, and leaves the same behind. -/
theorem checkScene_agrees (p : Project) (name : String) (options : Options) :
    (p.checkScene name options).1.map (fun _ ↦ ()) = (p.compileScene name options).1.map (fun _ ↦ ()) ∧
      (p.checkScene name options).2 = (p.compileScene name options).2 := by
  cases horder : p.orderScene name with
  | error e =>
      rw [checkScene_of_orderScene_eq_error horder, compileScene_of_orderScene_eq_error horder]
      exact ⟨rfl, rfl⟩
  | ok r =>
      obtain ⟨s, p'⟩ := r
      rw [checkScene_of_orderScene horder, compileScene_of_orderScene horder]
      refine ⟨?_, rfl⟩
      cases s.emit s.sequence options.maxDepth.toNat <;> rfl

/-- The report on a scene that compiles is right. -/
theorem fits_of_checkScene (hp : ∀ s ∈ p.scenes, s.WellFormed)
    (hcheck : (p.checkScene name options).1 = .ok report)
    (hcompile : (p.compileScene name options).1 = .ok script) :
    ∃ s, p.scene? name = some s ∧ report.Fits s script := by
  rcases hcompile' : p.compileScene name options with ⟨result, p'⟩
  rw [hcompile'] at hcompile
  obtain rfl : result = .ok script := hcompile
  obtain ⟨s, count, s', code, policy, hs, hcount, rfl, hemit, rfl⟩ := compileScene_eq_ok_iff.mp hcompile'
  have horder : p.orderScene name = .ok (s', p.updateScene name fun _ ↦ s') := by
    rw [orderScene_of_scene? hs, hcount]
    rfl
  rw [checkScene_of_orderScene horder, hemit] at hcheck
  obtain rfl := Except.ok.inj hcheck
  have hwf : s.WellFormed := hp s (List.mem_of_find?_eq_some hs)
  obtain ⟨hname, hconnections, hshape⟩ := Scene.of_computeOrder hcount
  have hbubbles : s'.bubbles.length = s.bubbles.length := by
    simpa only [List.length_map] using congrArg List.length hshape
  obtain ⟨rfl, emitted, hpass⟩ := s'.exists_finalPass (hwf.computeOrder hcount) hemit
  obtain ⟨w, hwalk, -⟩ := Scene.exists_orderWalk hcount
  refine ⟨s, hs, hname, ⟨hbubbles, congrArg List.length hconnections⟩, ⟨?_, ?_⟩, w, count, _, hwalk, hcount, ?_⟩
  · exact hpass.labelled_perm.nodup_iff.mpr hpass.nodup_labelNames
  · exact fun name ↦ hpass.labelled_perm.mem_iff
  · exact hwf.unreachable_eq hwalk hcount

/-! ## All scenes -/

theorem checkScenes_cons_of_error {e : Error} (h : p.checkScene name options = (.error e, p'))
    (names : List String) : p.checkScenes options (name :: names) = ([], .error e) := by
  rw [checkScenes, h]

theorem checkScenes_cons_of_ok (h : p.checkScene name options = (.ok report, p')) (names : List String) :
    p.checkScenes options (name :: names) =
      (report :: (p'.checkScenes options names).1, (p'.checkScenes options names).2) := by
  rw [checkScenes, h]

/-- `p.Reports options report entry`: a report is right about a scene that compiles to the script of an
entry. -/
def Reports (p : Project) (options : Options) (report : SceneReport) (entry : String × Script) : Prop :=
  (p.compileScene entry.1 options).1 = .ok entry.2 ∧
    ∃ s, p.scene? entry.1 = some s ∧ report.Fits s entry.2

/-- `p.Prints options lines entry`: these are the lines of a report that is right about a scene that compiles to
the script of an entry. -/
def Prints (p : Project) (options : Options) (lines : List String) (entry : String × Script) : Prop :=
  ∃ report, p.Reports options report entry ∧ report.Prints lines

/-- `p.GetsTo options names result done`: compiling scenes with a result gets done with some of them: with all, or
with those ahead of the first that does not compile. -/
structure GetsTo (p : Project) (options : Options) (names : List String)
    (result : Except Error (List (String × Script))) (done : List (String × Script)) : Prop where
  ahead : done.map (·.1) <+: names
  all : ∀ scripts, result = .ok scripts → done = scripts
  failed : ∀ e, result = .error e → ∃ name, done.map (·.1) ++ [name] <+: names ∧
    (p.compileScene name options).1 = .error e

theorem GetsTo.nil : p.GetsTo options [] (.ok []) [] where
  ahead := List.nil_prefix
  all _ h := Except.ok.inj h
  failed := nofun

theorem GetsTo.of_error {e : Error} (h : (p.compileScene name options).1 = .error e) (names : List String) :
    p.GetsTo options (name :: names) (.error e) [] where
  ahead := List.nil_prefix
  all := nofun
  failed e' h' := by
    obtain rfl := Except.error.inj h'
    exact ⟨name, List.cons_prefix_cons.mpr ⟨rfl, List.nil_prefix⟩, h⟩

theorem GetsTo.cons {names : List String} {result : Except Error (List (String × Script))}
    {done : List (String × Script)} (h : p.GetsTo options names result done) (name : String) (script : Script) :
    p.GetsTo options (name :: names) (result.map ((name, script) :: ·)) ((name, script) :: done) where
  ahead := List.cons_prefix_cons.mpr ⟨rfl, h.ahead⟩
  all scripts hscripts := by
    cases result with
    | error e => cases hscripts
    | ok rest =>
        obtain rfl := Except.ok.inj hscripts
        rw [h.all rest rfl]
  failed e herror := by
    cases result with
    | error e' =>
        obtain rfl := Except.error.inj herror
        obtain ⟨failing, hahead, hfails⟩ := h.failed e' rfl
        exact ⟨failing, List.cons_prefix_cons.mpr ⟨rfl, hahead⟩, hfails⟩
    | ok rest => cases herror

/-- Checking scenes comes to what compiling them comes to, with a report on each scene that compiles. -/
theorem Keeps.checkScenes_agrees {names : List String} (h : p.Keeps q names) (hnodup : names.Nodup)
    (options : Options) :
    (q.checkScenes options names).2 = (q.compileScenes options names).1.map (fun _ ↦ ()) ∧
      ∃ done : List (String × Script), p.GetsTo options names (q.compileScenes options names).1 done ∧
        List.Forall₂ (p.Reports options) (q.checkScenes options names).1 done := by
  induction names generalizing q with
  | nil => exact ⟨rfl, [], .nil, .nil⟩
  | cons name names ih =>
      obtain ⟨hname, hnodup⟩ := List.nodup_cons.mp hnodup
      have hsame : (q.compileScene name options).1 = (p.compileScene name options).1 :=
        fst_compileScene_congr (h.scene? name List.mem_cons_self) (h.preamble name)
      obtain ⟨hagrees, hleft⟩ := q.checkScene_agrees name options
      rcases hcheck : q.checkScene name options with ⟨checked, q₁⟩
      rcases hcompile : q.compileScene name options with ⟨compiled, q₂⟩
      rw [hcheck, hcompile] at hagrees hleft
      rw [hcompile] at hsame
      obtain rfl : q₁ = q₂ := hleft
      cases compiled with
      | error e =>
          obtain rfl : checked = .error e := by
            cases checked with
            | error e' => exact congrArg Except.error (Except.error.inj hagrees)
            | ok => cases hagrees
          rw [checkScenes_cons_of_error hcheck, compileScenes_cons_of_error hcompile]
          exact ⟨rfl, [], .of_error hsame.symm names, .nil⟩
      | ok script =>
          obtain ⟨report, rfl⟩ : ∃ report, checked = .ok report := by
            cases checked with
            | error e' => cases hagrees
            | ok report => exact ⟨report, rfl⟩
          obtain ⟨hresult, done, hdone, hreports⟩ := ih (h.compileScene hname hcompile) hnodup
          rw [checkScenes_cons_of_ok hcheck, compileScenes_cons_of_ok hcompile]
          refine ⟨?_, (name, script) :: done, hdone.cons name script, .cons ⟨hsame.symm, ?_⟩ hreports⟩
          · rw [hresult]
            cases (q₁.compileScenes options names).1 <;> rfl
          · rw [← h.scene? name List.mem_cons_self]
            exact fits_of_checkScene h.wellFormed (congrArg Prod.fst hcheck) (congrArg Prod.fst hcompile)

end Project

/-! ## The command -/

namespace Command

section Exec

variable {σ α β : Type} {s s' : σ} {before after : Printed}

/-- What a command comes to, what it has printed, and what it leaves behind. -/
def exec (x : Running (StateM σ) α) (before : Printed) (s : σ) : (Except Error α × Printed) × σ :=
  (x.run.run before).run s

theorem exec_bind_of_ok {x : Running (StateM σ) α} {a : α} (h : exec x before s = ((.ok a, after), s'))
    (f : α → Running (StateM σ) β) : exec (x >>= f) before s = exec (f a) after s' := by
  unfold exec at h ⊢
  rw [ExceptT.run_bind, StateT.run_bind, StateT.run_bind, h]
  rfl

theorem exec_withFiles {action : ExceptT Error (StateM σ) α} {result : Except Error α}
    (h : action.run.run s = (result, s')) (before : Printed) :
    exec (withFiles action) before s = ((result, before), s') := by
  have hrun : exec (withFiles action) before s = (((action.run.run s).1, before), (action.run.run s).2) := rfl
  rw [hrun, h]

variable [MonadFiles (StateM σ)]

/-- A project is loaded from the text that is read, with warnings at most. -/
theorem exec_loadProject {path : Path} {text : String} {p : Project} {r : LoadReport}
    (hread : (path.readText : ExceptT Error (StateM σ) String).run.run s = (.ok text, s'))
    (hload : Project.ofText text = .ok (p, r)) (before : Printed) :
    ∃ notes, exec (loadProject path : Running (StateM σ) Project) before s =
      ((.ok p, ⟨before.output, notes⟩), s') := by
  have hproject : (Project.load path : ExceptT Error (StateM σ) (Project × LoadReport)).run.run s =
      (.ok (p, r), s') := by
    rw [Project.load, run_bind, hread]
    simp only [hload]
    rfl
  unfold loadProject
  rw [exec_bind_of_ok (exec_withFiles hproject before)]
  exact ⟨_, rfl⟩

/-- A project that has been loaded is reported on, and the files stay as they are. -/
theorem exec_runCheck {path : Path} {config : Option Path} {options : Options} {s₁ : σ}
    (hoptions : exec (loadOptions config : Running (StateM σ) Options) before s = ((.ok options, before), s₁))
    {text : String} (hread : (path.readText : ExceptT Error (StateM σ) String).run.run s₁ = (.ok text, s'))
    {p : Project} {r : LoadReport} (hload : Project.ofText text = .ok (p, r)) :
    ∃ notes, exec (runCheck path config : Running (StateM σ) Unit) before s =
      (((p.check options).2,
        ⟨before.output ++ (p.check options).1.flatMap SceneReport.lines, notes⟩), s') := by
  obtain ⟨notes, hproject⟩ := exec_loadProject hread hload before
  unfold runCheck
  rw [exec_bind_of_ok hoptions, exec_bind_of_ok hproject]
  rcases p.check options with ⟨reports, result⟩
  dsimp only
  split <;> exact ⟨_, rfl⟩

end Exec

end Command

/-- Checking and compiling agree: a project that has been loaded is checked to the end exactly if it compiles,
and both fail with the same error otherwise. The reports are those of the scenes that compile, in order, up to the
first that does not. Each lists the labels of the script, and the bubbles where ordering does not arrive. Their
lines are all that the command prints. -/
theorem Project.check_agrees {text : String} {p : Project} {r : LoadReport}
    (hload : Project.ofText text = .ok (p, r)) (options : Options) :
    (p.check options).2 = (p.compile options).1.map (fun _ ↦ ()) ∧
      (∃ done : List (String × Script), p.GetsTo options p.sceneNames (p.compile options).1 done ∧
        List.Forall₂ (p.Reports options) (p.check options).1 done ∧
        List.Forall₂ (p.Prints options) ((p.check options).1.map SceneReport.lines) done) ∧
      ∀ {σ : Type} [MonadFiles (StateM σ)] (path : Path) (config : Option Path) (before : Command.Printed)
        (s s₁ s' : σ),
        Command.exec (Command.loadOptions config : Command.Running (StateM σ) Options) before s =
          ((.ok options, before), s₁) →
        (path.readText : ExceptT Error (StateM σ) String).run.run s₁ = (.ok text, s') →
        ∃ notes, Command.exec (Command.runCheck path config : Command.Running (StateM σ) Unit) before s =
          (((p.compile options).1.map fun _ ↦ (),
            ⟨before.output ++ (p.check options).1.flatMap SceneReport.lines, notes⟩), s') := by
  have hp := wellFormed_of_ofText hload
  obtain ⟨hresult, done, hdone, hreports⟩ := hp.keeps.checkScenes_agrees hp.nodup_names options
  refine ⟨hresult, ⟨done, hdone, hreports, ?_⟩, ?_⟩
  · refine List.forall₂_map_left_iff.mpr (hreports.imp fun report entry hreport ↦ ?_)
    exact ⟨report, hreport, report.prints_lines⟩
  · intro σ _ path config before s s₁ s' hoptions hread
    obtain ⟨notes, hexec⟩ := Command.exec_runCheck hoptions hread hload
    refine ⟨notes, hexec.trans ?_⟩
    rw [show (p.check options).2 = _ from hresult]
    rfl

theorem Project.sequence_staleSceneInOrder : staleSceneInOrder.sequence = [⟨3⟩, ⟨0⟩, ⟨2⟩, ⟨1⟩] := by
  have hperm : (([⟨3⟩, ⟨0⟩, ⟨2⟩, ⟨1⟩] : List Uid).filterMap staleSceneInOrder.bubble?).Perm
    staleSceneInOrder.bubbles := by decide
  exact Scene.WellFormed.sequence_eq_map (by decide) hperm (by decide)

theorem Project.checkScene_staleLoop : (staleLoop.checkScene startupName default).1 =
    .ok ⟨startupName, 4, 3, ["bubble_2", "bubble_1"], [⟨⟨3⟩, "", -1, false, .story "astray"⟩]⟩ := by
  have horder : staleLoop.orderScene startupName =
      .ok (staleSceneInOrder, staleLoop.updateScene startupName fun _ ↦ staleSceneInOrder) := by
    rw [orderScene_of_scene? (rfl : staleLoop.scene? startupName = some staleScene), computeOrder_staleScene]
    rfl
  have hnames : (staleSceneInOrder.emit staleSceneInOrder.sequence 1024).map
      (fun r ↦ r.2.labelled.map r.2.labelName) = .ok ["bubble_2", "bubble_1"] := by
    rw [sequence_staleSceneInOrder]
    decide +kernel
  have hreach : staleSceneInOrder.reachable = [⟨0⟩, ⟨1⟩, ⟨2⟩] := by cbv
  obtain ⟨⟨code, policy⟩, hemit, hlabels⟩ := map_eq_ok.mp hnames
  have hreport : SceneReport.ofPolicy staleSceneInOrder policy =
      ⟨startupName, 4, 3, ["bubble_2", "bubble_1"], [⟨⟨3⟩, "", -1, false, .story "astray"⟩]⟩ := by
    rw [SceneReport.ofPolicy, hreach]
    exact congrArg (SceneReport.mk startupName 4 3 · _) hlabels
  rw [checkScene_of_orderScene horder]
  exact (congrArg (Except.map _) hemit).trans (congrArg Except.ok hreport)

/-- A story that goes round is checked from its file. One bubble has a label, and one is not reached. -/
theorem Project.check_staleLoop :
    Project.ofText staleLoop.toText = .ok (staleLoop, ⟨[]⟩) ∧
      (staleLoop.check default).2 = (staleLoop.compile default).1.map (fun _ ↦ ()) ∧
      let t : FileTree := ⟨[(["story.json"], .file staleLoop.toText.toUTF8)], []⟩
      ∃ notes, Command.exec (Command.runCheck (.ofText "story.json") none) ⟨[], []⟩ t =
        ((.ok (), ⟨["scene 'startup': 4 bubble(s), 3 connection(s)", "  labels: bubble_2, bubble_1",
          "  unreachable: 3 (story)"], notes⟩), t) := by
  have hload := ofText_toText_of_wellFormed wellFormed_staleLoop
  obtain ⟨hresult, -, hcommand⟩ := check_agrees hload default
  refine ⟨hload, hresult, ?_⟩
  intro t
  have hread : t.read (.ofText "story.json") = .ok staleLoop.toText.toUTF8 := by
    unfold FileTree.read FileTree.findNode FileTree.find
    rw [FileTree.contains_nul_eq_false (by decide)]
    rfl
  have hlines : (staleLoop.check default).1.flatMap SceneReport.lines =
      ["scene 'startup': 4 bubble(s), 3 connection(s)", "  labels: bubble_2, bubble_1",
        "  unreachable: 3 (story)"] := by
    obtain ⟨p', hcheck⟩ := exists_of_fst_eq checkScene_staleLoop
    have hscenes : staleLoop.check default = _ := checkScenes_cons_of_ok hcheck []
    rw [hscenes]
    rfl
  obtain ⟨scripts, p', hcompile⟩ := wellFormed_staleLoop.exists_compile default (by decide)
  obtain ⟨notes, hexec⟩ := hcommand (.ofText "story.json") none ⟨[], []⟩ t t t rfl
    (FileTree.run_readText hread)
  rw [hlines, hcompile] at hexec
  exact ⟨notes, hexec⟩

end StoryGraph
