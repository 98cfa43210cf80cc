import StoryGraph.Proofs.Document.RoundTrip
import StoryGraph.Proofs.Project.Load

/-!
# What a project file must be like

A file is taken if its format version is the one that is written, its scenes have different names, each
has one start, and no uid is there twice. One that is not is refused for its version, or else for what
is wrong first when its scenes are read in order. Taking it changes nothing but the connections, and
those that go are all reported.
-/

namespace StoryGraph

namespace Scene

theorem checkStart_of_countP (s : Scene) (h : s.bubbles.countP (·.isStart) = 1) :
    s.checkStart = .ok () := by
  rw [checkStart, h]
  rfl

theorem checkStart_eq_error_iff (s : Scene) {e : Error} :
    s.checkStart = .error e ↔ (s.bubbles.countP (·.isStart) = 0 ∧ e = .missingStart s.name) ∨
      (2 ≤ s.bubbles.countP (·.isStart) ∧ e = .duplicateStart s.name) := by
  unfold checkStart
  generalize s.bubbles.countP (·.isStart) = count
  match count with
  | 0 => simp [@eq_comm _ e]
  | 1 => simp
  | count + 2 => simp [@eq_comm _ e]

end Scene

/-! ## The scenes of a file -/

/-- What the scenes of a project must be like, but for their connections. -/
structure Admissible (ss : List Scene) : Prop where
  nodup_names : (ss.map (·.name)).Nodup
  one_start : ∀ s ∈ ss, s.bubbles.countP (·.isStart) = 1
  nodup_uids : (ss.flatMap (·.uids)).Nodup

/-- `Fault before s e`: what is wrong first with a scene that comes after others. -/
inductive Fault (before : List Scene) (s : Scene) : Error → Prop where
  | duplicateScene (h : s.name ∈ before.map (·.name)) : Fault before s (.duplicateScene s.name)
  | missingStart (hname : s.name ∉ before.map (·.name)) (h : s.bubbles.countP (·.isStart) = 0) :
      Fault before s (.missingStart s.name)
  | duplicateStart (hname : s.name ∉ before.map (·.name)) (h : 2 ≤ s.bubbles.countP (·.isStart)) :
      Fault before s (.duplicateStart s.name)
  | duplicateUid {us vs : List Uid} {u : Uid} (hname : s.name ∉ before.map (·.name))
      (hstart : s.bubbles.countP (·.isStart) = 1) (huids : s.uids = us ++ u :: vs)
      (hnodup : us.Nodup) (hfree : ∀ v ∈ us, v ∉ before.flatMap (·.uids))
      (h : u ∈ before.flatMap (·.uids) ∨ u ∈ us) : Fault before s (.duplicateUid u)

variable {before after ss : List Scene} {s : Scene} {e : Error}

theorem Fault.not_admissible (h : Fault before s e) : ¬ Admissible (before ++ s :: after) := by
  intro hadmissible
  obtain ⟨hnames, hstart, huids⟩ := hadmissible
  simp only [List.map_append, List.map_cons, List.flatMap_append, List.flatMap_cons] at hnames huids
  have hs := hstart s (by simp)
  cases h with
  | duplicateScene h =>
      exact (List.nodup_append'.mp hnames).2.2 h List.mem_cons_self
  | missingStart _ h => omega
  | duplicateStart _ h => omega
  | @duplicateUid us vs u _ _ hsplit _ _ h =>
      rw [hsplit] at huids
      obtain ⟨-, hinner, hdisjoint⟩ := List.nodup_append'.mp huids
      rcases h with hu | hu
      · exact hdisjoint hu (by simp)
      · rw [List.append_assoc] at hinner
        exact (List.nodup_append'.mp hinner).2.2 hu (by simp)

namespace ProjectFile

variable {names : List String} {pool pool' : UidPool}

/-- Check one scene, where some names and uids are in use. -/
def checkScene (names : List String) (pool : UidPool) (s : Scene) : Except Error UidPool := do
  if s.name ∈ names then throw (.duplicateScene s.name)
  s.checkStart
  pool.claimAll s.uids

theorem checkScenes_cons (names : List String) (pool : UidPool) (s : Scene) (ss : List Scene) :
    checkScenes names pool (s :: ss) =
      checkScene names pool s >>= fun pool ↦ checkScenes (s.name :: names) pool ss := by
  rw [checkScenes, checkScene]
  split
  · rfl
  · cases s.checkStart <;> rfl

/-- `Tracks before names pool`: some scenes can be taken, and their names and uids are those in use. -/
structure Tracks (before : List Scene) (names : List String) (pool : UidPool) : Prop where
  admissible : Admissible before
  mem_names : ∀ n, n ∈ names ↔ n ∈ before.map (·.name)
  mem_pool : ∀ u, u ∈ pool ↔ u ∈ before.flatMap (·.uids)

theorem tracks_nil : Tracks [] [] .empty := by
  constructor
  · constructor <;> simp
  · simp
  · simp

theorem Tracks.checkScene_eq_error_iff (h : Tracks before names pool) :
    checkScene names pool s = .error e ↔ Fault before s e := by
  unfold ProjectFile.checkScene
  by_cases hname : s.name ∈ names
  · rw [if_pos hname]
    rw [h.mem_names] at hname
    constructor
    · intro he
      obtain rfl : Error.duplicateScene s.name = e := Except.error.inj he
      exact .duplicateScene hname
    · intro hfault
      cases hfault <;> first | rfl | contradiction
  · rw [if_neg hname]
    rw [h.mem_names] at hname
    show (s.checkStart >>= fun _ ↦ pool.claimAll s.uids) = .error e ↔ _
    rw [bind_eq_error, s.checkStart_eq_error_iff, UidPool.claimAll_eq_error_iff]
    simp only [UidPool.Clashes, h.mem_pool]
    constructor
    · rintro ((⟨hcount, rfl⟩ | ⟨hcount, rfl⟩) |
        ⟨_, hstart, u, ⟨us, vs, huids, hnodup, hfree, hu⟩, rfl⟩)
      · exact .missingStart hname hcount
      · exact .duplicateStart hname hcount
      · exact .duplicateUid hname (Scene.countP_of_checkStart hstart) huids hnodup hfree hu
    · intro hfault
      cases hfault with
      | duplicateScene => contradiction
      | missingStart _ hcount => exact .inl (.inl ⟨hcount, rfl⟩)
      | duplicateStart _ hcount => exact .inl (.inr ⟨hcount, rfl⟩)
      | duplicateUid _ hcount huids hnodup hfree hu =>
          exact .inr ⟨(), s.checkStart_of_countP hcount, _, ⟨_, _, huids, hnodup, hfree, hu⟩, rfl⟩

theorem Tracks.checkScene (h : Tracks before names pool) (hs : checkScene names pool s = .ok pool') :
    Tracks (before ++ [s]) (s.name :: names) pool' := by
  unfold ProjectFile.checkScene at hs
  split at hs
  · contradiction
  · rename_i hname
    obtain ⟨_, hstart, hclaim⟩ := bind_eq_ok.mp hs
    obtain ⟨hnodup, hfree, hmem⟩ := UidPool.of_claimAll hclaim
    obtain ⟨⟨hnames, hstarts, huids⟩, hmemNames, hmemPool⟩ := h
    rw [hmemNames] at hname
    constructor
    · constructor
      · rw [List.map_append]
        refine List.nodup_append'.mpr ⟨hnames, List.nodup_singleton _, ?_⟩
        intro n hn hn'
        obtain rfl := List.mem_singleton.mp hn'
        exact hname hn
      · exact List.forall_mem_append.mpr
          ⟨hstarts, List.forall_mem_singleton.mpr (Scene.countP_of_checkStart hstart)⟩
      · rw [List.flatMap_append, List.flatMap_singleton]
        refine List.nodup_append'.mpr ⟨huids, hnodup, ?_⟩
        intro u hu hu'
        exact hfree u hu' ((hmemPool u).mpr hu)
    · intro n
      simp [hmemNames, or_comm]
    · intro u
      rw [hmem, hmemPool]
      simp [or_comm]

/-- Checking scenes fails for the first of them with which something is wrong. -/
theorem Tracks.checkScenes_eq_error_iff (h : Tracks before names pool) :
    checkScenes names pool ss = .error e ↔ ∃ ss₁ s ss₂, ss = ss₁ ++ s :: ss₂ ∧
      Admissible (before ++ ss₁) ∧ Fault (before ++ ss₁) s e := by
  induction ss generalizing before names pool with
  | nil => simp [checkScenes]
  | cons s ss ih =>
      rw [checkScenes_cons, bind_eq_error]
      constructor
      · rintro (hs | ⟨pool', hs, hss⟩)
        · refine ⟨[], s, ss, rfl, ?_⟩
          rw [List.append_nil]
          exact ⟨h.admissible, h.checkScene_eq_error_iff.mp hs⟩
        · obtain ⟨ss₁, s', ss₂, rfl, hbefore, hfault⟩ := (ih (h.checkScene hs)).mp hss
          rw [List.append_assoc] at hbefore hfault
          exact ⟨s :: ss₁, s', ss₂, rfl, hbefore, hfault⟩
      · rintro ⟨ss₁, s', ss₂, heq, hbefore, hfault⟩
        cases ss₁ with
        | nil =>
            obtain ⟨rfl, rfl⟩ := List.cons.inj heq
            rw [List.append_nil] at hfault
            exact .inl (h.checkScene_eq_error_iff.mpr hfault)
        | cons s₁ ss₁ =>
            obtain ⟨rfl, rfl⟩ := List.cons.inj heq
            cases hs : ProjectFile.checkScene names pool s with
            | error e' => exact absurd hbefore (h.checkScene_eq_error_iff.mp hs).not_admissible
            | ok pool' =>
                refine .inr ⟨pool', rfl, (ih (h.checkScene hs)).mpr ⟨ss₁, s', ss₂, rfl, ?_⟩⟩
                rw [List.append_assoc]
                exact ⟨hbefore, hfault⟩

/-- Scenes pass the checks exactly if they are admissible. -/
theorem exists_checkScenes_iff :
    (∃ pool, checkScenes [] .empty ss = .ok pool) ↔ Admissible ss := by
  constructor
  · rintro ⟨pool, h⟩
    have hchecked := of_checkScenes h
    exact ⟨hchecked.nodup_names, fun s hs ↦ (hchecked.scenes s hs).1, hchecked.nodup_uids⟩
  · intro h
    cases hcheck : checkScenes [] .empty ss with
    | ok pool => exact ⟨pool, rfl⟩
    | error e =>
        obtain ⟨ss₁, s, ss₂, rfl, -, hfault⟩ := tracks_nil.checkScenes_eq_error_iff.mp hcheck
        exact absurd h hfault.not_admissible

/-! ## The file -/

/-- `Refused f e`: what a file is refused for, its version before anything else. -/
inductive Refused (f : ProjectFile) : Error → Prop where
  | version (h : f.version ≠ 1) : Refused f (.unsupportedVersion f.version)
  | scene {before after : List Scene} {s : Scene} {e : Error} (hversion : f.version = 1)
      (hsplit : f.scenes = before ++ s :: after) (hbefore : Admissible before) (h : Fault before s e) :
      Refused f e

/-- `Becomes f p r`: a project is what a file says but for some connections, and a report has those. -/
structure Becomes (f : ProjectFile) (p : Project) (r : LoadReport) : Prop where
  title_eq : p.title = f.title
  author_eq : p.author = f.author
  vars_eq : p.vars = f.vars
  /-- Each scene keeps some of its connections where they stand, and the others are reported under its
  name, scene by scene and as they stand. -/
  parted : ∃ kept dropped : Scene → List Connection,
    (∀ s ∈ f.scenes, Parted s.connections (kept s) (dropped s)) ∧
      p.scenes = f.scenes.map (fun s ↦ { s with connections := kept s }) ∧
      r.dropped = f.scenes.flatMap fun s ↦ (dropped s).map fun c ↦ (s.name, c)
  /-- The uids in use are those in the file. -/
  mem_pool : ∀ u, u ∈ p.pool ↔ u ∈ f.scenes.flatMap (·.uids)

variable {f : ProjectFile}

/-- The project that scenes passing the checks make, with their uids in use. -/
def project (f : ProjectFile) (pool : UidPool) : Project :=
  ⟨f.title, f.author, f.scenes.map (·.repair.1), f.vars, pool⟩

theorem load_of_version_ne (h : f.version ≠ 1) : f.load = .error (.unsupportedVersion f.version) :=
  if_pos h

theorem load_of_version_eq (h : f.version = 1) :
    f.load = checkScenes [] .empty f.scenes >>= fun pool ↦ .ok (f.project pool, ⟨droppedIn f.scenes⟩) :=
  if_neg (not_not_intro h)

theorem exists_load_iff : (∃ p r, f.load = .ok (p, r)) ↔ f.version = 1 ∧ Admissible f.scenes := by
  rw [← exists_checkScenes_iff]
  by_cases hversion : f.version = 1
  · rw [load_of_version_eq hversion]
    constructor
    · rintro ⟨p, r, h⟩
      obtain ⟨pool, hcheck, -⟩ := bind_eq_ok.mp h
      exact ⟨hversion, pool, hcheck⟩
    · rintro ⟨-, pool, hcheck⟩
      rw [hcheck]
      exact ⟨_, _, rfl⟩
  · rw [load_of_version_ne hversion]
    constructor
    · rintro ⟨p, r, h⟩
      contradiction
    · rintro ⟨h, -⟩
      contradiction

theorem load_eq_error_iff : f.load = .error e ↔ f.Refused e := by
  by_cases hversion : f.version = 1
  · rw [load_of_version_eq hversion, bind_eq_error, tracks_nil.checkScenes_eq_error_iff]
    constructor
    · rintro (⟨before, s, after, hsplit, hbefore, hfault⟩ | ⟨pool, -, h⟩)
      · exact .scene hversion hsplit hbefore hfault
      · contradiction
    · intro h
      cases h with
      | version h => contradiction
      | scene _ hsplit hbefore hfault => exact .inl ⟨_, _, _, hsplit, hbefore, hfault⟩
  · rw [load_of_version_ne hversion]
    constructor
    · intro h
      obtain rfl : Error.unsupportedVersion f.version = e := Except.error.inj h
      exact .version hversion
    · intro h
      cases h with
      | version => rfl
      | scene h => contradiction

theorem becomes_of_load {p : Project} {r : LoadReport} (h : f.load = .ok (p, r)) : f.Becomes p r := by
  by_cases hversion : f.version = 1
  · rw [load_of_version_eq hversion] at h
    obtain ⟨pool, hcheck, h⟩ := bind_eq_ok.mp h
    obtain ⟨rfl, rfl⟩ := Prod.mk.inj (Except.ok.inj h)
    refine ⟨rfl, rfl, rfl, ⟨fun s ↦ s.repair.1.connections, fun s ↦ s.repair.2, ?_, rfl, rfl⟩, ?_⟩
    · intro s _
      exact s.parted_sift [] [] s.connections
    · intro u
      show u ∈ pool ↔ _
      rw [(of_checkScenes hcheck).mem_pool]
      simp
  · rw [load_of_version_ne hversion] at h
    contradiction

end ProjectFile

/-- A text that says a project file is taken exactly if the file has the right version and admissible
scenes. Otherwise the error is the one that the file is refused for, and if it is taken, nothing changes
but connections, which are reported. -/
theorem Project.ofText_of_decode {text : String} {f : ProjectFile}
    (h : Json.decode ProjectFile.ofJson? text = .ok f) :
    ((∃ p r, ofText text = .ok (p, r)) ↔ f.version = 1 ∧ Admissible f.scenes) ∧
      (∀ e, ofText text = .error e ↔ f.Refused e) ∧
      ∀ p r, ofText text = .ok (p, r) → f.Becomes p r := by
  have hload : ofText text = f.load := by
    rw [ofText, h]
    rfl
  rw [hload]
  exact ⟨ProjectFile.exists_load_iff, fun e ↦ ProjectFile.load_eq_error_iff,
    fun p r ↦ ProjectFile.becomes_of_load⟩

/-- A file with a link that ends nowhere. -/
def ProjectFile.straying : ProjectFile :=
  ⟨1, "Straying", "", [⟨"startup", [.create ⟨0⟩ .start],
    [⟨⟨0⟩, ⟨⟨0⟩, .next⟩, ⟨7⟩, .south, .north⟩]⟩], []⟩

theorem Project.ofText_straying :
    ∃ p r, ofText ProjectFile.straying.toJson.pretty = .ok (p, r) ∧ ProjectFile.straying.Becomes p r := by
  obtain ⟨haccept, -, hbecomes⟩ := ofText_of_decode ProjectFile.straying.decode_pretty
  obtain ⟨p, r, h⟩ := haccept.mpr ⟨rfl, by decide, by decide, by decide⟩
  exact ⟨p, r, h, hbecomes p r h⟩

end StoryGraph
