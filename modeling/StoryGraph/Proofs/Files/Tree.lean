import Mathlib.Data.List.Basic
import StoryGraph.FileTree
import StoryGraph.Proofs.Outcome

/-!
# Where paths lead

A path says by its segments alone which location it leads to. What is in the tree decides only whether the
way there is open. So what an operation does to a tree can be said without following a path: writing puts a
file at the location, making directories adds directories where nothing was, and all the rest stays.
-/

namespace StoryGraph

/-! ## Locations -/

namespace Path

/-- Where one segment leads from a location. -/
def step (l : Location) (segment : String) : Location :=
  if isIdle segment then l else if segment = ".." then l.tail else segment :: l

/-- The location that a path leads to from a directory, whatever is there. -/
def locate (p : Path) (current : Location) : Location :=
  p.segments.foldl step (if p.rooted then [] else current)

theorem step_of_isIdle {segment : String} (h : isIdle segment) (l : Location) : step l segment = l := if_pos h

@[simp] theorem step_empty (l : Location) : step l "" = l := rfl

@[simp] theorem step_up (l : Location) : step l ".." = l.tail := rfl

/-- A name that is no dots leads into a directory. -/
theorem step_of_name {segment : String} (hidle : ¬ isIdle segment) (hup : segment ≠ "..") (l : Location) :
    step l segment = segment :: l := by
  rw [step, if_neg hidle, if_neg hup]

/-- An empty segment at the end leads nowhere. -/
theorem foldl_step_openEnd (segments : List String) (l : Location) :
    (openEnd segments).foldl step l = segments.foldl step l := by
  unfold openEnd
  split
  · rename_i hlast
    have hend : segments.dropLast ++ [""] = segments := List.dropLast_append_getLast? "" hlast
    calc
      segments.dropLast.foldl step l = (segments.dropLast ++ [""]).foldl step l := by simp
      _ = segments.foldl step l := by rw [hend]
  · rfl

/-- Nor do any number of segments that name nothing. -/
theorem foldl_step_dropWhile {q : String → Bool} (hq : ∀ segment, q segment → isIdle segment)
    (segments : List String) (l : Location) :
    (segments.dropWhile q).reverse.foldl step l = segments.reverse.foldl step l := by
  induction segments with
  | nil => rfl
  | cons segment segments ih =>
      rw [List.dropWhile_cons]
      split
      · rename_i hdrop
        rw [ih, List.reverse_cons, List.foldl_append]
        exact (step_of_isIdle (hq segment hdrop) _).symm
      · rfl

/-- A path in a directory leads on from where the directory is. -/
theorem locate_append {base p : Path} (h : p.rooted = false) (current : Location) :
    (base.append p).locate current = p.segments.foldl step (base.locate current) := by
  unfold append locate
  rw [h]
  simp only [Bool.false_eq_true, if_false, List.foldl_append, foldl_step_openEnd]

/-- A text without slashes is a path of one segment. -/
theorem ofText_of_not_mem {text : String} (hne : text ≠ "") (h : '/' ∉ text.toList) :
    ofText text = ⟨false, [text]⟩ := by
  have hchars : text.toList ≠ [] := by simpa using hne
  unfold ofText
  split
  · rename_i cs heq
    exact absurd (heq ▸ List.mem_cons_self) h
  · rw [cut, if_neg (by simpa using hchars), List.splitOn_eq_singleton h]
    simp

/-- A name in a directory leads to an entry of that directory. -/
theorem locate_join {base : Path} {name : String} (hslash : '/' ∉ name.toList) (hidle : ¬ isIdle name)
    (hup : name ≠ "..") (current : Location) :
    (base.join name).locate current = name :: base.locate current := by
  have hne : name ≠ "" := by
    rintro rfl
    exact hidle rfl
  rw [join, ofText_of_not_mem hne hslash, locate_append rfl]
  exact step_of_name hidle hup _

end Path

namespace FileTree

variable {t t' : FileTree} {p : Path} {l l' : Location} {content : ByteArray}

/-! ## Finding a place -/

theorem of_enter {name : String} (h : t.enter l name = .ok l') : l' = name :: l := by
  unfold enter at h
  split at h
  · contradiction
  · split at h
    · contradiction
    · contradiction
    · exact (Except.ok.inj h).symm

theorem of_walk {names : List String} (h : t.walk l names = .ok l') : l' = names.foldl Path.step l := by
  induction names generalizing l with
  | nil => exact (Except.ok.inj h).symm
  | cons name names ih =>
      rw [walk] at h
      rw [List.foldl_cons, Path.step]
      split at h
      · rename_i hidle
        rw [if_pos hidle]
        exact ih h
      · rename_i hidle
        rw [if_neg hidle]
        split at h
        · rename_i hup
          rw [if_pos hup]
          exact ih h
        · rename_i hup
          obtain ⟨inside, henter, h⟩ := bind_eq_ok.mp h
          rw [if_neg hup, ← of_enter henter]
          exact ih h

/-- A path that leads somewhere leads where its segments say. -/
theorem of_find {place : Place} (h : t.find p = .ok place) : place.location = p.locate t.current := by
  have hlocate : (p.segments.reverse.dropWhile (· = "")).reverse.foldl Path.step
      (if p.rooted then [] else t.current) = p.locate t.current := by
    rw [Path.foldl_step_dropWhile fun _ hempty ↦ by simp [Path.isIdle, of_decide_eq_true hempty],
      List.reverse_reverse]
    rfl
  unfold find at h
  obtain ⟨-, h⟩ := of_check h
  obtain ⟨-, h⟩ := of_check h
  obtain ⟨-, h⟩ := of_check h
  cases hsegments : p.segments.reverse.dropWhile (· = "") with
  | nil =>
      simp only [hsegments] at h hlocate
      obtain rfl := Except.ok.inj h
      exact hlocate
  | cons last before =>
      simp only [hsegments] at h hlocate
      rw [List.reverse_cons, List.foldl_append] at hlocate
      obtain ⟨dir, hwalk, h⟩ := bind_eq_ok.mp h
      rw [← of_walk hwalk] at hlocate
      change Path.step dir last = p.locate t.current at hlocate
      rw [← hlocate]
      split at h
      · rename_i hdot
        obtain rfl := Except.ok.inj h
        exact (Path.step_of_isIdle (by simp [hdot, Path.isIdle]) dir).symm
      · rename_i hdot
        split at h
        · rename_i hup
          obtain rfl := Except.ok.inj h
          rw [hup, Path.step_up]
          rfl
        · rename_i hup
          obtain rfl := Except.ok.inj h
          have hname : last ≠ "" := by
            have := List.head?_dropWhile_not (fun x : String ↦ decide (x = "")) p.segments.reverse
            simpa [hsegments] using this
          exact (Path.step_of_name (by simp [hname, hdot, Path.isIdle]) hup dir).symm

theorem of_findNode {place : Place} {n : Option Node} (h : t.findNode p = .ok (place, n)) :
    place.location = p.locate t.current ∧ n = t.node? (p.locate t.current) := by
  obtain ⟨found, hfind, h⟩ := bind_eq_ok.mp h
  split at h
  · contradiction
  · obtain ⟨rfl, rfl⟩ := Prod.mk.inj (Except.ok.inj h)
    rw [of_find hfind]
    exact ⟨rfl, rfl⟩

/-- The check for a NUL, on the characters of a path. -/
theorem contains_nul_eq_false (h : '\x00' ∉ p.text.toList) : p.text.contains '\x00' = false := by
  simpa using h

theorem findNode_of_find_eq_error {e : FileError} (h : t.find p = .error e) : t.findNode p = .error e := by
  rw [findNode, h]
  rfl

/-! ## What the operations do -/

/-- There is a directory at the root. -/
theorem ne_nil_of_node? (h : t.node? l ≠ some .dir) : l ≠ [] := by
  rintro rfl
  exact h rfl

/-- A file is written to where its path leads, where no directory may be. -/
theorem of_write (h : t.write p content = .ok t') :
    t.node? (p.locate t.current) ≠ some .dir ∧ t' = t.put (p.locate t.current) (.file content) := by
  obtain ⟨_, -, h⟩ := bind_eq_ok.mp h
  split at h
  · contradiction
  · obtain ⟨⟨place, n⟩, hfind, h⟩ := bind_eq_ok.mp h
    obtain ⟨hplace, hn⟩ := of_findNode hfind
    split at h
    · contradiction
    · rename_i place' n' hdir heq
      obtain ⟨rfl, rfl⟩ := Prod.mk.inj heq
      rw [← hn, ← hplace]
      exact ⟨hdir, (Except.ok.inj h).symm⟩

/-- A directory is made where its path leads, where nothing may be. -/
theorem of_makeDir (h : t.makeDir p = .ok t') :
    t.node? (p.locate t.current) = none ∧ t' = t.put (p.locate t.current) .dir := by
  obtain ⟨⟨place, n⟩, hfind, h⟩ := bind_eq_ok.mp h
  obtain ⟨hplace, hn⟩ := of_findNode hfind
  split at h
  · contradiction
  · obtain ⟨rfl, rfl⟩ := Prod.mk.inj ‹_›
    rw [← hn, ← hplace]
    exact ⟨rfl, (Except.ok.inj h).symm⟩

theorem of_isDir (h : t.isDir p) : t.node? (p.locate t.current) = some .dir := by
  unfold isDir at h
  split at h
  · rename_i hfind
    exact (of_findNode hfind).2.symm
  · contradiction

/-! ## What changes in a tree -/

/-- `Changes ls t t'`: a tree has changed in some locations, where directories stay. Anywhere else it has
got directories at most, where nothing was. -/
structure Changes (ls : List Location) (t t' : FileTree) : Prop where
  current : t'.current = t.current
  dir : ∀ l, t.node? l = some .dir → t'.node? l = some .dir
  node? : ∀ l ∉ ls, t'.node? l = t.node? l ∨ t.node? l = none ∧ t'.node? l = some .dir

namespace Changes

variable {t'' : FileTree} {ls ls' : List Location}

theorem refl (t : FileTree) : Changes [] t t := ⟨rfl, fun _ ↦ id, fun _ _ ↦ .inl rfl⟩

theorem mono (h : Changes ls t t') (hls : ls ⊆ ls') : Changes ls' t t' :=
  ⟨h.current, h.dir, fun l hl ↦ h.node? l (mt (@hls l) hl)⟩

theorem trans (h : Changes ls t t') (h' : Changes ls' t' t'') : Changes (ls ++ ls') t t'' := by
  refine ⟨h'.current.trans h.current, fun l hl ↦ h'.dir l (h.dir l hl), ?_⟩
  intro l hl
  obtain ⟨hl, hl'⟩ := not_or.mp (mt List.mem_append.mpr hl)
  rcases h.node? l hl with heq | ⟨hnone, hdir⟩
  · rw [← heq]
    exact h'.node? l hl'
  · exact .inr ⟨hnone, h'.dir l hdir⟩

/-- What is at another location stays there. -/
theorem node?_of_some (h : Changes ls t t') {n : Node} (hl : l ∉ ls) (hn : t.node? l = some n) :
    t'.node? l = some n := by
  rcases h.node? l hl with heq | ⟨hnone, -⟩
  · exact heq.trans hn
  · cases hn.symm.trans hnone

theorem put {n : Node} (hne : l ≠ []) (hdir : t.node? l = some .dir → n = .dir) :
    Changes [l] t (t.put l n) := by
  refine ⟨rfl, ?_, ?_⟩
  · intro k hk
    by_cases heq : k = l
    · subst heq
      rw [node?_put_self hne, hdir hk]
    · rw [node?_put_of_ne heq, hk]
  · intro k hk
    exact .inl (node?_put_of_ne (List.ne_of_not_mem_cons hk))

theorem of_write (h : t.write p content = .ok t') : Changes [p.locate t.current] t t' := by
  obtain ⟨hdir, rfl⟩ := FileTree.of_write h
  exact put (ne_nil_of_node? hdir) fun hthere ↦ absurd hthere hdir

theorem of_makeDir (h : t.makeDir p = .ok t') : Changes [] t t' := by
  obtain ⟨hnone, rfl⟩ := FileTree.of_makeDir h
  have hdir : t.node? (p.locate t.current) ≠ some .dir := by simp [hnone]
  have hne := ne_nil_of_node? hdir
  have hput : Changes [p.locate t.current] t (t.put (p.locate t.current) .dir) := put hne fun _ ↦ rfl
  refine ⟨rfl, hput.dir, ?_⟩
  intro l _
  by_cases heq : l = p.locate t.current
  · subst heq
    exact .inr ⟨hnone, node?_put_self hne⟩
  · exact hput.node? l (by simpa using heq)

end Changes

/-! ## Making directories -/

theorem run_attempt (op : FileTree → Except FileError FileTree) (t : FileTree) :
    (attempt op).run t = match op t with
      | .ok t' => (.ok (), t')
      | .error e => (.error e, t) := by
  unfold attempt
  simp only [StateT.run_bind, StateT.run_get, pure_bind]
  cases op t <;> rfl

theorem run_ensureDir (p : Path) (t : FileTree) :
    (MonadFiles.ensureDir p : StateM FileTree _).run t = match t.makeDir p with
      | .ok t' => (.ok (), t')
      | .error e => (if t.isDir p then .ok () else .error e, t) := by
  unfold MonadFiles.ensureDir
  simp only [StateT.run_bind, MonadFiles.makeDir, run_attempt]
  cases t.makeDir p <;> rfl

variable {result : Except FileError Unit}

/-- Making a directory that may be there already adds that directory at most, and leaves it. -/
theorem of_ensureDir (h : (MonadFiles.ensureDir p : StateM FileTree _).run t = (result, t')) :
    Changes [] t t' ∧ (result = .ok () → t'.node? (p.locate t.current) = some .dir) := by
  rw [run_ensureDir] at h
  split at h
  · rename_i made hmake
    obtain ⟨rfl, rfl⟩ := Prod.mk.inj h
    refine ⟨.of_makeDir hmake, fun _ ↦ ?_⟩
    obtain ⟨hnone, rfl⟩ := of_makeDir hmake
    have hdir : t.node? (p.locate t.current) ≠ some .dir := by simp [hnone]
    exact node?_put_self (ne_nil_of_node? hdir)
  · obtain ⟨rfl, rfl⟩ := Prod.mk.inj h
    refine ⟨.refl t, ?_⟩
    intro hok
    split at hok
    · rename_i hdir
      exact of_isDir hdir
    · contradiction

theorem run_ensureDirs_of_makeDir (hne : p ≠ .empty) (h : t.makeDir p = .ok t') :
    (MonadFiles.ensureDirs p : StateM FileTree _).run t = (.ok (), t') := by
  rw [MonadFiles.ensureDirs, if_neg hne, StateT.run_bind, run_ensureDir, h]
  rfl

/-- A directory in one that is missing is made once that one is. -/
theorem run_ensureDirs_of_missing {q : Path} {t₁ : FileTree} (hne : p ≠ .empty)
    (hmissing : t.find p = .error .notFound) (hparent : p.parent? = some q)
    (haround : (MonadFiles.ensureDirs q : StateM FileTree _).run t = (.ok (), t₁)) :
    (MonadFiles.ensureDirs p : StateM FileTree _).run t =
      (MonadFiles.ensureDir p : StateM FileTree _).run t₁ := by
  have hnode := findNode_of_find_eq_error hmissing
  have hmake : t.makeDir p = .error .notFound := by
    rw [makeDir, hnode]
    rfl
  have hno : t.isDir p = false := by rw [isDir, hnode]
  rw [MonadFiles.ensureDirs, if_neg hne, StateT.run_bind, run_ensureDir, hmake, hno]
  change StateT.run _ t = _
  simp only [Bool.false_eq_true, if_false]
  split
  · rename_i hnone
    simp [hparent] at hnone
  · rename_i q' hsome
    obtain rfl := Option.some.inj (hparent.symm.trans hsome)
    rw [StateT.run_bind, haround]
    rfl

/-- Making a directory with those around it adds directories at most, and leaves it. -/
theorem of_ensureDirs (h : (MonadFiles.ensureDirs p : StateM FileTree _).run t = (result, t')) :
    Changes [] t t' ∧ (result = .ok () → p ≠ .empty → t'.node? (p.locate t.current) = some .dir) := by
  induction p using MonadFiles.ensureDirs.induct generalizing t t' result with
  | case1 =>
      rw [MonadFiles.ensureDirs, if_pos rfl] at h
      obtain ⟨-, rfl⟩ := Prod.mk.inj h
      exact ⟨.refl t, fun _ hne ↦ absurd rfl hne⟩
  | case2 p hne ih =>
      rw [MonadFiles.ensureDirs, if_neg hne, StateT.run_bind] at h
      rcases hfirst : (MonadFiles.ensureDir p : StateM FileTree _).run t with ⟨first, t₁⟩
      rw [hfirst] at h
      obtain ⟨hgrows, hdir⟩ := of_ensureDir hfirst
      change StateT.run _ t₁ = _ at h
      split at h
      · split at h
        · obtain ⟨rfl, rfl⟩ := Prod.mk.inj h
          exact ⟨hgrows, by simp⟩
        · rename_i q hparent
          rw [StateT.run_bind] at h
          rcases haround : (MonadFiles.ensureDirs q : StateM FileTree _).run t₁ with ⟨around, t₂⟩
          rw [haround] at h
          have hgrows' := hgrows.trans (ih q hparent haround).1
          cases around with
          | error e =>
              obtain ⟨rfl, rfl⟩ := Prod.mk.inj h
              exact ⟨hgrows', by simp⟩
          | ok =>
              obtain ⟨hagain, hdir'⟩ := of_ensureDir h
              rw [hgrows'.current] at hdir'
              exact ⟨hgrows'.trans hagain, fun hok _ ↦ hdir' hok⟩
      · obtain ⟨rfl, rfl⟩ := Prod.mk.inj h
        exact ⟨hgrows, fun hok _ ↦ hdir hok⟩

/-! ## Reading texts -/

/-- A text that has been written is read as it was. -/
theorem run_readText {text : String} (h : t.read p = .ok text.toUTF8) :
    (p.readText : ExceptT Error (StateM FileTree) String).run.run t = (.ok text, t) := by
  have hread : (p.naming (MonadFiles.readFile p) : ExceptT Error (StateM FileTree) ByteArray).run.run t =
      ((t.read p).mapError (.file p.text), t) := rfl
  have htext : String.fromUTF8? text.toUTF8 = some text := dif_pos text.isValidUTF8
  rw [Path.readText, run_bind, hread, h]
  simp only [Except.mapError, htext]
  rfl

end FileTree

end StoryGraph
