import StoryGraph.Proofs.Project.Progress
import StoryGraph.Proofs.Script.Alike

/-!
# Scripts do not depend on how a project is written down

Projects whose scenes are alike one by one compile alike: a scene is ordered alike and emitted alike, and
the scenes that ordering leaves are alike again. So both compilations come to the same scripts, or stop at
the same scene with the same error.
-/

namespace StoryGraph

/-! ## Lists that go together -/

section

variable {α β : Type} {R : α → β → Prop} {xs : List α} {ys : List β} {p : α → Bool} {q : β → Bool}

theorem rel_find? (h : List.Forall₂ R xs ys) (hpq : ∀ {x y}, R x y → p x = q y) :
    Option.Rel R (xs.find? p) (ys.find? q) := by
  induction h with
  | nil => exact .none
  | cons hxy _ ih =>
      rw [List.find?_cons, List.find?_cons, hpq hxy]
      split
      · exact .some hxy
      · exact ih

theorem rel_updateFirst {f : α → α} {g : β → β} (h : List.Forall₂ R xs ys)
    (hpq : ∀ {x y}, R x y → p x = q y) (hfg : ∀ {x y}, R x y → R (f x) (g y)) :
    List.Forall₂ R (updateFirst p f xs) (updateFirst q g ys) := by
  induction h with
  | nil => exact .nil
  | cons hxy htail ih =>
      rw [updateFirst, updateFirst, hpq hxy]
      split
      · exact .cons (hfg hxy) htail
      · exact .cons hxy ih

end

namespace Project

/-- `p.Alike q`: two projects have the same title, author and variables, and their scenes are alike one by
one. -/
structure Alike (p q : Project) : Prop where
  title_eq : p.title = q.title
  author_eq : p.author = q.author
  vars_eq : p.vars = q.vars
  scenes : List.Forall₂ Scene.Alike p.scenes q.scenes

variable {p q : Project}

namespace Alike

theorem sceneNames_eq (h : p.Alike q) : p.sceneNames = q.sceneNames := by
  have hnames : List.Forall₂ Eq (p.scenes.map (·.name)) (q.scenes.map (·.name)) := by
    rw [List.forall₂_map_left_iff, List.forall₂_map_right_iff]
    exact h.scenes.imp fun _ _ hs ↦ hs.name_eq
  exact List.forall₂_eq_eq_eq ▸ hnames

theorem preamble_eq (h : p.Alike q) (name : String) : p.preamble name = q.preamble name :=
  preamble_eq_of_sceneNames h.title_eq h.author_eq h.vars_eq h.sceneNames_eq name

theorem rel_scene? (h : p.Alike q) (name : String) :
    Option.Rel Scene.Alike (p.scene? name) (q.scene? name) :=
  rel_find? h.scenes fun hs ↦ by rw [hs.name_eq]

theorem updateScene (h : p.Alike q) (name : String) {s t : Scene} (hst : s.Alike t) :
    (p.updateScene name fun _ ↦ s).Alike (q.updateScene name fun _ ↦ t) :=
  ⟨h.title_eq, h.author_eq, h.vars_eq,
    rel_updateFirst h.scenes (fun hs ↦ by rw [hs.name_eq]) fun _ ↦ hst⟩

/-- Ordering a scene ends alike. -/
theorem orderScene (h : p.Alike q) (name : String) :
    (∃ e, p.orderScene name = .error e ∧ q.orderScene name = .error e) ∨
      ∃ s t p' q', p.orderScene name = .ok (s, p') ∧ q.orderScene name = .ok (t, q') ∧ s.Alike t ∧
        p'.Alike q' := by
  have hscene := h.rel_scene? name
  cases hs : p.scene? name <;> cases ht : q.scene? name <;> rw [hs, ht] at hscene
  case none.none =>
    exact .inl ⟨_, orderScene_of_scene?_eq_none hs, orderScene_of_scene?_eq_none ht⟩
  case some.some s t =>
    cases hscene with
    | some hst =>
        rw [orderScene_of_scene? hs, orderScene_of_scene? ht]
        rcases hst.computeOrder with ⟨e, hs', ht'⟩ | ⟨count, s', t', hs', ht', hst'⟩
        · rw [hs', ht']
          exact .inl ⟨e, rfl, rfl⟩
        · rw [hs', ht']
          exact .inr ⟨s', t', _, _, rfl, rfl, hst', h.updateScene name hst'⟩
  all_goals cases hscene

/-- Compiling a scene comes to the same, and leaves the projects alike. -/
theorem compileScene (h : p.Alike q) (name : String) (options : Options) :
    (p.compileScene name options).1 = (q.compileScene name options).1 ∧
      (p.compileScene name options).2.Alike (q.compileScene name options).2 := by
  rcases h.orderScene name with ⟨e, hp, hq⟩ | ⟨s, t, p', q', hp, hq, hst, hpq⟩
  · rw [compileScene_of_orderScene_eq_error hp, compileScene_of_orderScene_eq_error hq]
    exact ⟨rfl, h⟩
  · rw [compileScene_of_orderScene hp, compileScene_of_orderScene hq, hpq.preamble_eq]
    refine ⟨?_, hpq⟩
    have hscript := congrArg (Except.map (Script.mk (q'.preamble name)))
      (hst.emit_eq options.maxDepth.toNat)
    generalize s.emit s.sequence options.maxDepth.toNat = r at hscript ⊢
    generalize t.emit t.sequence options.maxDepth.toNat = r' at hscript ⊢
    cases r <;> cases r' <;> exact hscript

/-- Compiling scenes comes to the same. -/
theorem compileScenes_eq (h : p.Alike q) (options : Options) (names : List String) :
    (p.compileScenes options names).1 = (q.compileScenes options names).1 := by
  induction names generalizing p q with
  | nil => rfl
  | cons name names ih =>
      obtain ⟨hscript, halike⟩ := h.compileScene name options
      rcases hp : p.compileScene name options with ⟨result, p'⟩
      rcases hq : q.compileScene name options with ⟨result', q'⟩
      rw [hp, hq] at hscript halike
      obtain rfl : result = result' := hscript
      cases result with
      | error e => rw [compileScenes_cons_of_error hp, compileScenes_cons_of_error hq]
      | ok script => rw [compileScenes_cons_of_ok hp, compileScenes_cons_of_ok hq, ih halike]

end Alike

/-- Projects that are alike compile to the same scripts, or fail with the same error. -/
theorem compile_eq_of_alike (h : p.Alike q) (options : Options) :
    (p.compile options).1 = (q.compile options).1 := by
  rw [compile, compile, h.sceneNames_eq]
  exact h.compileScenes_eq options _

/-- A choice of which one answer leads on to where the other leads at once. -/
def forkScene : Scene where
  name := startupName
  bubbles :=
    [.create ⟨0⟩ .start, .create ⟨1⟩ (.choice [⟨⟨2⟩, "look"⟩, ⟨⟨3⟩, "leave"⟩]), .create ⟨4⟩ (.story "a door"),
      ⟨⟨5⟩, "", 3, true, .story "outside"⟩]
  connections :=
    [⟨⟨0⟩, ⟨⟨0⟩, .next⟩, ⟨1⟩, .south, .north⟩, ⟨⟨1⟩, ⟨⟨2⟩, .next⟩, ⟨4⟩, .south, .north⟩,
      ⟨⟨2⟩, ⟨⟨3⟩, .next⟩, ⟨5⟩, .south, .north⟩, ⟨⟨3⟩, ⟨⟨4⟩, .next⟩, ⟨5⟩, .south, .north⟩]

def fork : Project := ⟨"Fork", "", [forkScene], [], ⟨[⟨0⟩, ⟨1⟩, ⟨2⟩, ⟨3⟩, ⟨4⟩, ⟨5⟩], by decide⟩⟩

theorem wellFormed_fork : fork.WellFormed where
  nodup_names := by decide
  scenes := by decide
  nodup_uids := by decide
  mem_pool _ := Iff.rfl

/-- Another id and other anchors. -/
def redraw (c : Connection) : Connection := ⟨⟨c.id.val + 7⟩, c.slot, c.target, .east, .west⟩

/-- The same story written down backwards, with other ids and anchors. -/
def forkBackwards : Project :=
  { fork with scenes :=
      [⟨startupName, forkScene.bubbles.reverse, forkScene.connections.reverse.map redraw⟩] }

theorem alike_forkBackwards : fork.Alike forkBackwards := by
  refine ⟨rfl, rfl, rfl, .cons ?_ .nil⟩
  exact .of_renumbering (by decide) (List.reverse_perm _).symm (List.reverse_perm _).symm (fun _ ↦ rfl)
    (by decide)

theorem compile_eq_of_alike_forkBackwards :
    fork.Alike forkBackwards ∧ ∃ scripts,
      (fork.compile default).1 = .ok scripts ∧ (forkBackwards.compile default).1 = .ok scripts := by
  refine ⟨alike_forkBackwards, ?_⟩
  have heq := compile_eq_of_alike alike_forkBackwards default
  obtain ⟨scripts, p', hcompile⟩ := wellFormed_fork.exists_compile default (by decide)
  rw [hcompile] at heq ⊢
  exact ⟨scripts, rfl, heq.symm⟩

end Project

end StoryGraph
