import Mathlib.Algebra.Order.BigOperators.Group.List
import Mathlib.Algebra.Order.Ring.Nat
import Mathlib.Data.Finset.Card
import StoryGraph.Proofs.Script.Failure
import StoryGraph.Proofs.Script.FinalPass

/-!
# Emission ends

How deep bubbles may follow each other in line is no reason for a pass to end, since that bound can be as
large as one likes. A pass ends because a bubble is emitted once. `Runs` counts the steps of a pass, also
of one that fails on the way, and every step takes from a cost that the sequence and the scene set in
advance. Passes end because each but the last forces a target that was not forced.
-/

namespace StoryGraph

/-! ## Counted runs -/

/-- `Runs p n g parts code g' left`: in `n` steps a pass comes from `g` to `g'` and writes `code`, and of
the parts that were to come, and of those that came up, those in `left` are still to come. -/
inductive Runs (p : LabelPolicy) :
    Nat → Progress → List Part → List Item → Progress → List Part → Prop
  | here (g : Progress) (parts : List Part) : Runs p 0 g parts [] g parts
  | step {n : Nat} {g g₁ g' : Progress} {part : Part} {front parts left : List Part}
      {items code : List Item} (first : Step p g part items g₁ front)
      (rest : Runs p n g₁ (front ++ parts) code g' left) :
      Runs p (n + 1) g (part :: parts) (items ++ code) g' left

/-- What is emitted can be counted. -/
theorem Emits.exists_runs {p : LabelPolicy} {g g' : Progress} {parts : List Part} {code : List Item}
    (h : Emits p g parts code g') : ∃ n, Runs p n g parts code g' [] := by
  induction h with
  | done g => exact ⟨0, .here g []⟩
  | step first rest ih =>
      obtain ⟨n, hn⟩ := ih
      exact ⟨n + 1, .step first hn⟩

namespace Runs

variable {p : LabelPolicy} {n : Nat} {g g' : Progress} {parts left : List Part} {code : List Item}

/-- Parts that wait behind others go on waiting. -/
theorem append (h : Runs p n g parts code g' left) (waiting : List Part) :
    Runs p n g (parts ++ waiting) code g' (left ++ waiting) := by
  induction h with
  | here g parts => exact .here g _
  | step first rest ih =>
      rw [List.append_assoc] at ih
      exact .step first ih

end Runs

/-! ## What the steps cost -/

/-- How many steps a part takes, without those of a bubble that it leads to. -/
def Part.cost : Part → Nat
  | .item _ | .bubble _ _ => 1
  | .slot _ _ | .entry _ _ => 2

def costOf (parts : List Part) : Nat := (parts.map Part.cost).sum

@[simp] theorem costOf_nil : costOf [] = 0 := rfl

@[simp] theorem costOf_cons (part : Part) (parts : List Part) :
    costOf (part :: parts) = part.cost + costOf parts := List.sum_cons

@[simp] theorem costOf_append (parts others : List Part) :
    costOf (parts ++ others) = costOf parts + costOf others := by
  simp [costOf]

@[simp] theorem costOf_items (items : List Item) : costOf (items.map .item) = items.length := by
  simp [costOf, Function.comp_def, Part.cost]

@[simp] theorem costOf_roots (us : List Uid) : costOf (us.map (.bubble 0)) = us.length := by
  simp [costOf, Function.comp_def, Part.cost]

/-- How many steps the parts of a bubble take. -/
def Bubble.cost (b : Bubble) : Nat := costOf (b.parts 0)

/-- The level of a bubble does not count. -/
theorem Bubble.costOf_parts (b : Bubble) (level : Nat) : costOf (b.parts level) = b.cost := by
  have htext : ∀ text, (Item.ofText level text).length = (Item.ofText 0 text).length := fun text ↦ by
    simp [Item.ofText]
  have hoptions : ∀ options : List ChoiceOption,
      costOf (options.flatMap (·.parts level)) = costOf (options.flatMap (·.parts 0)) := by
    intro options
    induction options with
    | nil => rfl
    | cons o options ih =>
        rw [List.flatMap_cons, List.flatMap_cons, costOf_append, costOf_append, ih]
        rfl
  unfold cost parts
  cases b.kind with
  | start => rfl
  | story text | action text => simp [htext, Part.cost]
  | choice options => simp [hoptions, Part.cost]
  | condition expression => rfl

/-- How many steps the bubbles of a scene take that have not been emitted. -/
def Scene.cost (s : Scene) (emitted : List Uid) : Nat :=
  (s.bubbles.map fun b ↦ if b.uid ∈ emitted then 0 else b.cost).sum

namespace Scene

variable {s : Scene} {emitted : List Uid}

theorem cost_cons_le (u : Uid) : s.cost (u :: emitted) ≤ s.cost emitted := by
  refine List.sum_le_sum fun b _ ↦ ?_
  by_cases hu : b.uid = u
  · simp [hu]
  · simp [hu]

/-- What the parts of a bubble take is taken from the cost of its scene. -/
theorem cost_cons_add_le {b : Bubble} (hb : b ∈ s.bubbles) (hnew : b.uid ∉ emitted) :
    s.cost (b.uid :: emitted) + b.cost ≤ s.cost emitted := by
  have hsplit : ∀ emitted, s.cost emitted = (if b.uid ∈ emitted then 0 else b.cost) +
      ({ s with bubbles := s.bubbles.erase b } : Scene).cost emitted :=
    fun _ ↦ (List.sum_map_erase _ hb).symm
  have hrest : ({ s with bubbles := s.bubbles.erase b } : Scene).cost (b.uid :: emitted) ≤
      ({ s with bubbles := s.bubbles.erase b } : Scene).cost emitted := cost_cons_le b.uid
  rw [hsplit (b.uid :: emitted), hsplit emitted, if_pos List.mem_cons_self, if_neg hnew]
  omega

end Scene

/-- A step takes from the cost of what is still to come. -/
theorem Step.cost_lt {p : LabelPolicy} {g g₁ : Progress} {part : Part} {front : List Part}
    {items : List Item} (h : Step p g part items g₁ front) :
    costOf front + p.scene.cost g₁.emitted < part.cost + p.scene.cost g.emitted := by
  -- only a uid that is emitted now takes from the cost of the scene
  cases h with
  | @unknown level u =>
      have hle : p.scene.cost (u :: g.emitted) ≤ p.scene.cost g.emitted := Scene.cost_cons_le u
      simp only [costOf_nil, Part.cost]
      omega
  | take hnew hbubble =>
      obtain rfl := Scene.uid_of_bubble? hbubble
      have hle := Scene.cost_cons_add_le (Scene.mem_of_bubble? hbubble) hnew
      simp only [Bubble.costOf_parts, Part.cost]
      omega
  | _ => simp [Part.cost]

/-! ## What a run can do -/

/-- Whether no part is the mark of a bubble. -/
def Unmarked (parts : List Part) : Prop := ∀ i, .item i ∈ parts → i.mark? = none

/-- What a step writes has the mark of the bubble that it emits, or none. -/
theorem Step.marks {p : LabelPolicy} {g g₁ : Progress} {part : Part} {front parts : List Part}
    {items : List Item} (h : Step p g part items g₁ front) (hparts : Unmarked (part :: parts)) :
    Unmarked (front ++ parts) ∧ ∃ new, g₁.emitted = new ++ g.emitted ∧
      (items.filterMap Item.mark?).Sublist new.reverse := by
  have hrest : Unmarked parts := fun i hi ↦ hparts i (List.mem_cons_of_mem _ hi)
  cases h with
  | @item i =>
      have hi := hparts i List.mem_cons_self
      exact ⟨hrest, [], rfl, by simp [hi]⟩
  | inline | entry => exact ⟨fun i hi ↦ hrest i (by simpa using hi), [], rfl, List.nil_sublist _⟩
  | @unknown level u => exact ⟨hrest, [u], rfl, List.nil_sublist _⟩
  | @take level u b hnew hbubble =>
      refine ⟨fun i hi ↦ ?_, [u], rfl, ?_⟩
      · rcases List.mem_append.mp hi with hi | hi
        · exact Item.IsPlain.mark?_eq_none (isOf_of_mem_parts hi)
        · exact hrest i hi
      · unfold LabelPolicy.heading
        split <;> exact List.Sublist.refl _
  | _ => exact ⟨hrest, [], rfl, List.nil_sublist _⟩

namespace Runs

variable {p : LabelPolicy} {n : Nat} {g g' : Progress} {parts left : List Part} {code : List Item}

/-- Every step of a run takes from what its parts and the scene cost. -/
theorem add_cost_le (h : Runs p n g parts code g' left) :
    n + costOf left + p.scene.cost g'.emitted ≤ costOf parts + p.scene.cost g.emitted := by
  induction h with
  | here g parts => omega
  | step first rest ih =>
      have hlt := first.cost_lt
      rw [costOf_append] at ih
      rw [costOf_cons]
      omega

/-- No bubble is emitted twice. -/
theorem nodup_emitted (h : Runs p n g parts code g' left) (hnodup : g.emitted.Nodup) :
    g'.emitted.Nodup := by
  induction h with
  | here g parts => exact hnodup
  | step first rest ih => exact ih (first.nodup_emitted hnodup)

/-- The marks that a run writes are those of bubbles that it emits, the last one last. -/
theorem marks (h : Runs p n g parts code g' left) (hparts : Unmarked parts) :
    ∃ new, g'.emitted = new ++ g.emitted ∧
      (code.filterMap Item.mark?).Sublist new.reverse := by
  induction h with
  | here g parts => exact ⟨[], rfl, List.nil_sublist _⟩
  | step first rest ih =>
      obtain ⟨hfront, new, hnew, hitems⟩ := first.marks hparts
      obtain ⟨later, hlater, hcode⟩ := ih hfront
      refine ⟨later ++ new, by rw [hlater, hnew, List.append_assoc], ?_⟩
      rw [List.filterMap_append, List.reverse_append]
      exact hitems.append hcode

end Runs

/-! ## Passes that fail -/

/-- Whether the parts bring a pass to a bubble in line for which there is no room. -/
def Fails (p : LabelPolicy) (limit : Nat) (g : Progress) (parts : List Part) (e : Error) : Prop :=
  ∃ n code g' level u left, Runs p n g parts code g' (.bubble level u :: left) ∧ u ∉ g'.emitted ∧
    e = .depthLimitExceeded u limit

namespace Fails

variable {p : LabelPolicy} {limit : Nat} {g g₁ : Progress} {parts : List Part} {e : Error}

/-- What comes behind a part that fails does not matter. -/
theorem append (h : Fails p limit g parts e) (waiting : List Part) :
    Fails p limit g (parts ++ waiting) e := by
  obtain ⟨n, code, g', level, u, left, hruns, hfail⟩ := h
  exact ⟨n, code, g', level, u, left ++ waiting, hruns.append waiting, hfail⟩

theorem step {part : Part} {front : List Part} {items : List Item}
    (first : Step p g part items g₁ front) (rest : Fails p limit g₁ (front ++ parts) e) :
    Fails p limit g (part :: parts) e := by
  obtain ⟨n, code, g', level, u, left, hruns, hfail⟩ := rest
  exact ⟨n + 1, items ++ code, g', level, u, left, .step first hruns, hfail⟩

/-- Parts may be emitted before others fail. -/
theorem after {first : List Part} {items : List Item} (h : Emits p g first items g₁)
    (rest : Fails p limit g₁ parts e) : Fails p limit g (first ++ parts) e := by
  induction h with
  | done g => exact rest
  | step first _ ih =>
      have hrest := ih rest
      rw [List.append_assoc] at hrest
      exact .step first hrest

/-- What `inline` has to do where it fails on a target in line. -/
def Sound (p : LabelPolicy) (limit : Nat) (inline : Nat → Uid → Emission (List Item)) : Prop :=
  ∀ {level u g e}, (inline level u).run g = .error e → Fails p limit g [.bubble level u] e

theorem of_stops {inline : Nat → Uid → Emission (List Item)} (hinline : Sound p limit inline)
    (h : Stops p inline e g parts) : Fails p limit g parts e := by
  induction h with
  | here first hfail => exact .step first ((hinline hfail).append _)
  | later first _ ih => exact .after first ih

theorem sound_emitBubble (p : LabelPolicy) (limit room : Nat) :
    Sound p limit (p.emitBubble limit room) := by
  induction room with
  | zero =>
      intro level u g e h
      obtain ⟨hnew, rfl⟩ := eq_of_emitBubble_zero h
      exact ⟨0, [], g, level, u, [], .here g _, hnew, rfl⟩
  | succ room ih =>
      intro level u g e h
      obtain ⟨hnew, b, hbubble, hstops⟩ := stops_of_emitBubble h
      exact .step (.take hnew hbubble) ((of_stops ih hstops).append [])

theorem of_emitAll {us : List Uid} (h : (p.emitAll limit us).run g = .error e) :
    Fails p limit g (us.map (.bubble 0)) e := by
  induction us generalizing g with
  | nil => exact absurd h Emission.run_pure_ne_error
  | cons u us ih =>
      rcases Emission.run_bind_eq_error h with h | ⟨_, _, hfirst, h⟩
      · exact (sound_emitBubble p limit (limit + 1) h).append _
      · rcases Emission.run_bind_eq_error h with h | ⟨_, _, -, h⟩
        · have hturn := Emits.sound_emitBubble p limit (limit + 1) hfirst (.done _)
          exact .after hturn (ih h)
        · exact absurd h Emission.run_pure_ne_error

end Fails

/-! ## Passes end, and there are not many -/

namespace LabelPolicy

/-- `p.PassEnds limit`: a pass takes no more steps than the sequence and the bubbles of the scene allow,
whatever the limit is. On its way it emits no uid twice, and it comes to its end, or to a bubble for which
there is no room. -/
def PassEnds (p : LabelPolicy) (limit : Nat) : Prop :=
  ∃ n code g left, Runs p n ⟨[], []⟩ (p.sequence.map (.bubble 0)) code g left ∧
    n ≤ p.sequence.length + p.scene.cost [] ∧ g.emitted.Nodup ∧ (code.filterMap Item.mark?).Nodup ∧
    (left = [] ∧ p.pass limit = .ok (code, g) ∨
      ∃ level u rest, left = .bubble level u :: rest ∧ u ∉ g.emitted ∧
        p.pass limit = .error (.depthLimitExceeded u limit))

/-- What emission comes to in a number of passes, if that is enough. -/
def emitWithin (limit : Nat) : Nat → LabelPolicy → Option (Except Error (List Item × LabelPolicy))
  | 0, _ => none
  | passes + 1, p =>
      match p.pass limit with
      | .error e => some (.error e)
      | .ok (code, progress) =>
          if p.newlyStranded progress = [] then some (.ok (code, p))
          else emitWithin limit passes (p.force (p.newlyStranded progress)).2

variable {p : LabelPolicy} {limit : Nat}

theorem exists_runs_of_pass (p : LabelPolicy) (limit : Nat) : ∃ n code g left,
    Runs p n ⟨[], []⟩ (p.sequence.map (.bubble 0)) code g left ∧
      (left = [] ∧ p.pass limit = .ok (code, g) ∨
        ∃ level u rest, left = .bubble level u :: rest ∧ u ∉ g.emitted ∧
          p.pass limit = .error (.depthLimitExceeded u limit)) := by
  cases hpass : p.pass limit with
  | ok result =>
      obtain ⟨code, g⟩ := result
      obtain ⟨n, hruns⟩ := (emits_of_pass hpass).exists_runs
      exact ⟨n, code, g, [], hruns, .inl ⟨rfl, rfl⟩⟩
  | error e =>
      obtain ⟨n, code, g, level, u, rest, hruns, hnew, rfl⟩ := Fails.of_emitAll hpass
      exact ⟨n, code, g, _, hruns, .inr ⟨level, u, rest, rfl, hnew, rfl⟩⟩

theorem passEnds (p : LabelPolicy) (limit : Nat) : p.PassEnds limit := by
  obtain ⟨n, code, g, left, hruns, hend⟩ := p.exists_runs_of_pass limit
  have hcost : n + costOf left + p.scene.cost g.emitted ≤ p.sequence.length + p.scene.cost [] := by
    simpa using hruns.add_cost_le
  have hnodup : g.emitted.Nodup := hruns.nodup_emitted .nil
  obtain ⟨new, hnew, hmarks⟩ := hruns.marks fun i hi ↦ by simp at hi
  rw [List.append_nil] at hnew
  have hreverse : new.reverse.Nodup := List.nodup_reverse.mpr (hnew ▸ hnodup)
  exact ⟨n, code, g, left, hruns, by omega, hnodup, hreverse.sublist hmarks, hend⟩

/-- Every pass that is not the last leaves fewer targets that are not forced. -/
theorem card_unforced_force_lt {progress : Progress} (h : p.newlyStranded progress ≠ []) :
    (p.force (p.newlyStranded progress)).2.unforced.toFinset.card < p.unforced.toFinset.card := by
  obtain ⟨u, hu⟩ := List.exists_mem_of_ne_nil _ h
  rw [force_newlyStranded h]
  have hmem : u ∈ p.unforced := by
    simp only [newlyStranded, List.mem_filter, decide_eq_true_eq] at hu
    simp only [unforced, List.mem_filter, decide_eq_true_eq]
    exact ⟨hu.1, hu.2.2⟩
  refine Finset.card_lt_card (Finset.ssubset_iff_of_subset ?_ |>.mpr ⟨u, ?_, ?_⟩)
  · intro v hv
    simp only [unforced, ofLabelling, List.mem_toFinset, List.mem_filter, decide_eq_true_eq,
      List.mem_append, not_or] at hv ⊢
    exact ⟨hv.1, hv.2.2⟩
  · exact List.mem_toFinset.mpr hmem
  · simp [unforced, ofLabelling, hu]

/-- Emission needs no more passes than there are targets that are not forced, and one. -/
theorem emitWithin_eq {passes : Nat} (h : p.unforced.toFinset.card < passes) :
    emitWithin limit passes p = some (p.emit limit) := by
  induction passes generalizing p with
  | zero => omega
  | succ passes ih =>
      rw [emitWithin, emit]
      cases hpass : p.pass limit with
      | error e => rfl
      | ok result =>
          by_cases hlast : p.newlyStranded result.2 = []
          · simp [hlast]
          · have hlt := card_unforced_force_lt hlast
            simp only [hlast, ↓reduceIte, ↓reduceDIte]
            exact ih (by omega)

end LabelPolicy

/-- Emission ends for every scene, sequence and limit: there is a result after as many passes as there
are uids at which connections end, and one, and every pass ends, whatever has been forced. -/
theorem Scene.emission_ends (s : Scene) (sequence : List Uid) (limit : Nat) :
    LabelPolicy.emitWithin limit (s.targets.toFinset.card + 1) (.create s sequence) =
        some (s.emit sequence limit) ∧
      ∀ forced, (LabelPolicy.ofLabelling ⟨s, sequence, forced⟩).PassEnds limit := by
  refine ⟨LabelPolicy.emitWithin_eq ?_, fun forced ↦ LabelPolicy.passEnds _ limit⟩
  have hall : (LabelPolicy.create s sequence).unforced = s.targets := by
    simp [LabelPolicy.unforced, LabelPolicy.create, LabelPolicy.ofLabelling]
  rw [hall]
  exact Nat.lt_succ_self _

/-- Two links to a uid that no bubble has. The second finds it emitted, in the first pass and in the
second, but it can be forced only once. -/
def Scene.dangling : Scene where
  name := "lane"
  bubbles := [.create ⟨1⟩ .start, .create ⟨2⟩ (.condition "key")]
  connections :=
    [⟨⟨0⟩, ⟨⟨1⟩, .next⟩, ⟨2⟩, .south, .north⟩, ⟨⟨1⟩, ⟨⟨2⟩, .whenTrue⟩, ⟨9⟩, .south, .north⟩,
      ⟨⟨2⟩, ⟨⟨2⟩, .whenFalse⟩, ⟨9⟩, .south, .north⟩]

example : LabelPolicy.emitWithin 3 1 (.create .dangling [⟨1⟩, ⟨2⟩]) = none ∧
    (LabelPolicy.emitWithin 3 2 (.create .dangling [⟨1⟩, ⟨2⟩])).isSome := by decide +kernel

end StoryGraph
