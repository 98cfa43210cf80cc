import StoryGraph.Proofs.Scene.Lookup
import StoryGraph.Script.Emit

/-!
# Emission as work on a list of parts

The code of a bubble is made of parts: items that are written as they are, and the code behind its
slots. `Emits` follows a pass with the list of the parts that are still to come. A part at the front is
written, or gives way to what it stands for; the depth of the line does not show, since the parts of a
bubble in line go in front of those that wait. What a pass does is then one induction along this list.

`Emits.of_emitAll` is the only statement here about the monad of the emitter.
-/

namespace StoryGraph

/-- What the code of a bubble is made of. -/
inductive Part where
  | item (item : Item)
  /-- The code behind a slot. -/
  | slot (slot : Slot) (level : Nat)
  /-- The code behind the slot of a start, whose link is followed in line in any case. -/
  | entry (slot : Slot) (level : Nat)
  /-- The code of a bubble, unless it has been emitted. -/
  | bubble (level : Nat) (uid : Uid)
deriving DecidableEq, Repr

/-- The parts of an option of a choice at a level. -/
def ChoiceOption.parts (o : ChoiceOption) (level : Nat) : List Part :=
  [.item (.line (level + 1) (.option o.text)), .slot ⟨o.uid, .next⟩ (level + 2)]

/-- The parts of a bubble at a level, behind its label. -/
def Bubble.parts (b : Bubble) (level : Nat) : List Part :=
  match b.kind with
  | .start => [.entry ⟨b.uid, .next⟩ level]
  | .story text => (Item.ofText level text).map .item ++ [.slot ⟨b.uid, .next⟩ level]
  | .action script => (Item.ofText level script).map .item ++ [.slot ⟨b.uid, .next⟩ level]
  | .choice options => .item (.line level .choice) :: options.flatMap (·.parts level)
  | .condition expression =>
      [.item (.line level (.branch expression)), .slot ⟨b.uid, .whenTrue⟩ (level + 1),
        .item (.line level .otherwise), .slot ⟨b.uid, .whenFalse⟩ (level + 1)]

/-! ## The parts of a bubble -/

/-- Whether an item is one that a part writes as it is: no mark, no label, no jump, and no line above a
level. -/
def Item.IsPlain (level : Nat) : Item → Prop
  | .enter _ => False
  | .blank => True
  | .line _ (.label _) | .line _ (.goto _) => False
  | .line l _ => level ≤ l

/-- Whether a part is one that a bubble may have at a level. -/
def Part.IsOf (b : Bubble) (level : Nat) : Part → Prop
  | .item i => i.IsPlain level
  | .slot _ l => level ≤ l
  | .entry place l => b.isStart ∧ place = ⟨b.uid, .next⟩ ∧ l = level
  | .bubble _ _ => False

theorem isPlain_of_mem_ofText {level : Nat} {text : String} {i : Item}
    (h : i ∈ Item.ofText level text) : i.IsPlain level := by
  obtain ⟨line, -, rfl⟩ := List.mem_map.mp h
  split
  · trivial
  · exact Nat.le_refl level

theorem isOf_of_mem_parts {b : Bubble} {level : Nat} {part : Part} (h : part ∈ b.parts level) :
    part.IsOf b level := by
  unfold Bubble.parts at h
  split at h
  · rename_i hkind
    obtain rfl := List.mem_singleton.mp h
    exact ⟨Bubble.isStart_iff.mpr hkind, rfl, rfl⟩
  · rcases List.mem_append.mp h with h | h
    · obtain ⟨i, hi, rfl⟩ := List.mem_map.mp h
      exact isPlain_of_mem_ofText hi
    · obtain rfl := List.mem_singleton.mp h
      exact Nat.le_refl level
  · rcases List.mem_append.mp h with h | h
    · obtain ⟨i, hi, rfl⟩ := List.mem_map.mp h
      exact isPlain_of_mem_ofText hi
    · obtain rfl := List.mem_singleton.mp h
      exact Nat.le_refl level
  · rcases List.mem_cons.mp h with rfl | h
    · exact Nat.le_refl level
    · obtain ⟨o, -, ho⟩ := List.mem_flatMap.mp h
      simp only [ChoiceOption.parts, List.mem_cons, List.not_mem_nil, or_false] at ho
      rcases ho with rfl | rfl
      · exact Nat.le_succ level
      · exact Nat.le_add_right level 2
  · simp only [List.mem_cons, List.not_mem_nil, or_false] at h
    rcases h with rfl | rfl | rfl | rfl
    · exact Nat.le_refl level
    · exact Nat.le_succ level
    · exact Nat.le_refl level
    · exact Nat.le_succ level

theorem Bubble.parts_of_isStart {b : Bubble} (h : b.isStart) (level : Nat) :
    b.parts level = [.entry ⟨b.uid, .next⟩ level] := by
  simp only [parts, isStart_iff.mp h]

namespace LabelPolicy

/-- What stands in front of the code of a bubble. -/
def heading (p : LabelPolicy) (uid : Uid) : List Item :=
  if p.needsLabel uid then [.blank, .line 0 (.label (p.labelName uid)), .enter uid] else [.enter uid]

/-- The level that the code of a bubble has, where it is wanted at a level. -/
def levelOf (p : LabelPolicy) (level : Nat) (uid : Uid) : Nat :=
  if p.needsLabel uid then 0 else level

end LabelPolicy

/-- `Step p g part items g₁ front`: where a pass has come to `g`, a part writes `items`, brings the pass
to `g₁`, and leaves the parts in `front` to be emitted next. -/
inductive Step (p : LabelPolicy) : Progress → Part → List Item → Progress → List Part → Prop
  | item {g : Progress} {i : Item} : Step p g (.item i) [i] g []
  | finish {g : Progress} {slot : Slot} {level : Nat} (hlink : p.scene.link? slot = none) :
      Step p g (.slot slot level) [.line level .finish] g []
  | jump {g : Progress} {slot : Slot} {level : Nat} {c : Connection}
      (hlink : p.scene.link? slot = some c) (hlabel : p.needsLabel c.target) :
      Step p g (.slot slot level) [.line level (.goto (p.labelName c.target))] g []
  | strand {g : Progress} {slot : Slot} {level : Nat} {c : Connection}
      (hlink : p.scene.link? slot = some c) (hlabel : ¬ p.needsLabel c.target)
      (hmem : c.target ∈ g.emitted) :
      Step p g (.slot slot level) [] { g with stranded := c.target :: g.stranded } []
  | inline {g : Progress} {slot : Slot} {level : Nat} {c : Connection}
      (hlink : p.scene.link? slot = some c) (hlabel : ¬ p.needsLabel c.target)
      (hnew : c.target ∉ g.emitted) :
      Step p g (.slot slot level) [] g [.bubble level c.target]
  | entryFinish {g : Progress} {slot : Slot} {level : Nat} (hlink : p.scene.link? slot = none) :
      Step p g (.entry slot level) [.line level .finish] g []
  | entry {g : Progress} {slot : Slot} {level : Nat} {c : Connection}
      (hlink : p.scene.link? slot = some c) :
      Step p g (.entry slot level) [] g [.bubble level c.target]
  | skip {g : Progress} {level : Nat} {u : Uid} (hmem : u ∈ g.emitted) :
      Step p g (.bubble level u) [] g []
  | unknown {g : Progress} {level : Nat} {u : Uid} (hnew : u ∉ g.emitted)
      (hbubble : p.scene.bubble? u = none) :
      Step p g (.bubble level u) [] { g with emitted := u :: g.emitted } []
  | take {g : Progress} {level : Nat} {u : Uid} {b : Bubble} (hnew : u ∉ g.emitted)
      (hbubble : p.scene.bubble? u = some b) :
      Step p g (.bubble level u) (p.heading u) { g with emitted := u :: g.emitted }
        (b.parts (p.levelOf level u))

/-- `Emits p g parts code g'`: where a pass has come to `g`, the parts that are still to come are emitted
as `code`, and the pass comes to `g'`. -/
inductive Emits (p : LabelPolicy) : Progress → List Part → List Item → Progress → Prop
  | done (g : Progress) : Emits p g [] [] g
  | step {g g₁ g' : Progress} {part : Part} {front parts : List Part} {items code : List Item}
      (first : Step p g part items g₁ front) (rest : Emits p g₁ (front ++ parts) code g') :
      Emits p g (part :: parts) (items ++ code) g'

/-! ## The monad of the emitter -/

namespace Emission

variable {α β : Type} {g g' : Progress}

theorem run_bind_eq_ok {x : Emission α} {f : α → Emission β} {b : β} :
    (x >>= f).run g = .ok (b, g') ↔
      ∃ a g₁, x.run g = .ok (a, g₁) ∧ (f a).run g₁ = .ok (b, g') := by
  rw [StateT.run_bind]
  cases hx : x.run g with
  | error e => simp [bind, Except.bind]
  | ok r =>
      obtain ⟨a, g₁⟩ := r
      simp [bind, Except.bind]

theorem run_pure_eq_ok {a b : α} : (pure a : Emission α).run g = .ok (b, g') ↔ a = b ∧ g = g' := by
  rw [StateT.run_pure]
  simp [pure, Except.pure]

theorem run_get_eq_ok {a : Progress} :
    (get : Emission Progress).run g = .ok (a, g') ↔ g = a ∧ g = g' := by
  simp [pure, Except.pure]

theorem run_set_eq_ok {a : Progress} {r : PUnit} :
    (set a : Emission PUnit).run g = .ok (r, g') ↔ a = g' := by
  simp [pure, Except.pure]

theorem run_throw_ne_ok {e : Error} {a : α} :
    (throw e : Emission α).run g ≠ .ok (a, g') := by
  simp [throw, throwThe, MonadExceptOf.throw, StateT.lift, bind, Except.bind, StateT.run]

end Emission

namespace Emits

variable {p : LabelPolicy}

/-- What `inline` has to do for a target in line. -/
def Sound (p : LabelPolicy) (inline : Nat → Uid → Emission (List Item)) : Prop :=
  ∀ {level u g items g₁}, (inline level u).run g = .ok (items, g₁) →
    ∀ {parts code g'}, Emits p g₁ parts code g' → Emits p g (.bubble level u :: parts) (items ++ code) g'

theorem item {g g' : Progress} {parts : List Part} {code : List Item} {i : Item}
    (rest : Emits p g parts code g') : Emits p g (.item i :: parts) (i :: code) g' := .step .item rest

theorem of_items {g g' : Progress} {parts : List Part} {code : List Item}
    (rest : Emits p g parts code g') (items : List Item) :
    Emits p g (items.map .item ++ parts) (items ++ code) g' := by
  induction items with
  | nil => exact rest
  | cons i items ih => exact ih.item

section

variable {inline : Nat → Uid → Emission (List Item)} (hinline : Sound p inline)
  {g g₁ g' : Progress} {items code : List Item} {parts : List Part}

include hinline

theorem of_follow {slot : Slot} {level : Nat} (h : (p.follow inline slot level).run g = .ok (items, g₁))
    (rest : Emits p g₁ parts code g') : Emits p g (.slot slot level :: parts) (items ++ code) g' := by
  unfold LabelPolicy.follow at h
  split at h
  · rename_i hlink
    obtain ⟨rfl, rfl⟩ := Emission.run_pure_eq_ok.mp h
    exact .step (.finish hlink) rest
  · rename_i c hlink
    split at h
    · rename_i hlabel
      obtain ⟨rfl, rfl⟩ := Emission.run_pure_eq_ok.mp h
      exact .step (.jump hlink hlabel) rest
    · rename_i hlabel
      obtain ⟨_, _, hget, h⟩ := Emission.run_bind_eq_ok.mp h
      obtain ⟨rfl, rfl⟩ := Emission.run_get_eq_ok.mp hget
      split at h
      · rename_i hmem
        obtain ⟨_, _, hset, h⟩ := Emission.run_bind_eq_ok.mp h
        obtain rfl := Emission.run_set_eq_ok.mp hset
        obtain ⟨rfl, rfl⟩ := Emission.run_pure_eq_ok.mp h
        exact .step (.strand hlink hlabel hmem) rest
      · rename_i hnew
        have hstep := Emits.step (.inline hlink hlabel hnew) (hinline h rest)
        exact hstep

theorem of_options {level : Nat} {options : List ChoiceOption}
    (h : (p.options inline level options).run g = .ok (items, g₁))
    (rest : Emits p g₁ parts code g') :
    Emits p g (options.flatMap (·.parts level) ++ parts) (items ++ code) g' := by
  induction options generalizing g items with
  | nil =>
      obtain ⟨rfl, rfl⟩ := Emission.run_pure_eq_ok.mp h
      exact rest
  | cons o options ih =>
      obtain ⟨_, _, hfirst, h⟩ := Emission.run_bind_eq_ok.mp h
      obtain ⟨_, _, hothers, h⟩ := Emission.run_bind_eq_ok.mp h
      obtain ⟨rfl, rfl⟩ := Emission.run_pure_eq_ok.mp h
      have := of_follow hinline hfirst (ih hothers)
      simpa [ChoiceOption.parts] using this.item

theorem of_body {level : Nat} {b : Bubble}
    (h : (p.body inline level b.uid b.kind).run g = .ok (items, g₁))
    (rest : Emits p g₁ parts code g') : Emits p g (b.parts level ++ parts) (items ++ code) g' := by
  unfold LabelPolicy.body at h
  unfold Bubble.parts
  cases hkind : b.kind with
  | start =>
      simp only [hkind] at h
      split at h
      · rename_i hlink
        obtain ⟨rfl, rfl⟩ := Emission.run_pure_eq_ok.mp h
        exact .step (.entryFinish hlink) rest
      · rename_i c hlink
        have hstep := Emits.step (.entry hlink) (hinline h rest)
        exact hstep
  | story text | action text =>
      simp only [hkind] at h
      obtain ⟨_, _, hnext, h⟩ := Emission.run_bind_eq_ok.mp h
      obtain ⟨rfl, rfl⟩ := Emission.run_pure_eq_ok.mp h
      simp only [List.append_assoc]
      exact (of_follow hinline hnext rest).of_items _
  | choice options =>
      simp only [hkind] at h
      obtain ⟨_, _, hoptions, h⟩ := Emission.run_bind_eq_ok.mp h
      obtain ⟨rfl, rfl⟩ := Emission.run_pure_eq_ok.mp h
      exact (of_options hinline hoptions rest).item
  | condition expression =>
      simp only [hkind] at h
      obtain ⟨_, _, hholds, h⟩ := Emission.run_bind_eq_ok.mp h
      obtain ⟨_, _, hfails, h⟩ := Emission.run_bind_eq_ok.mp h
      obtain ⟨rfl, rfl⟩ := Emission.run_pure_eq_ok.mp h
      have hotherwise := (of_follow hinline hfails rest).item (i := .line level .otherwise)
      have := (of_follow hinline hholds hotherwise).item (i := .line level (.branch expression))
      simpa using this

theorem of_block {level : Nat} {b : Bubble}
    (h : (p.block inline level b).run g = .ok (items, g₁)) (rest : Emits p g₁ parts code g') :
    ∃ body, items ++ code = p.heading b.uid ++ body ∧
      Emits p g (b.parts (p.levelOf level b.uid) ++ parts) body g' := by
  unfold LabelPolicy.block at h
  unfold LabelPolicy.heading LabelPolicy.levelOf
  split at h
  · rename_i hlabel
    obtain ⟨body, _, hbody, h⟩ := Emission.run_bind_eq_ok.mp h
    obtain ⟨rfl, rfl⟩ := Emission.run_pure_eq_ok.mp h
    rw [if_pos hlabel, if_pos hlabel]
    exact ⟨body ++ code, by simp, of_body hinline hbody rest⟩
  · rename_i hlabel
    obtain ⟨body, _, hbody, h⟩ := Emission.run_bind_eq_ok.mp h
    obtain ⟨rfl, rfl⟩ := Emission.run_pure_eq_ok.mp h
    rw [if_neg hlabel, if_neg hlabel]
    exact ⟨body ++ code, by simp, of_body hinline hbody rest⟩

end

theorem sound_emitBubble (p : LabelPolicy) (limit room : Nat) : Sound p (p.emitBubble limit room) := by
  induction room with
  | zero =>
      intro level u g items g₁ h parts code g' rest
      obtain ⟨_, _, hget, h⟩ := Emission.run_bind_eq_ok.mp h
      obtain ⟨rfl, rfl⟩ := Emission.run_get_eq_ok.mp hget
      split at h
      · rename_i hmem
        obtain ⟨rfl, rfl⟩ := Emission.run_pure_eq_ok.mp h
        exact .step (.skip hmem) rest
      · exact absurd h Emission.run_throw_ne_ok
  | succ room ih =>
      intro level u g items g₁ h parts code g' rest
      obtain ⟨_, _, hget, h⟩ := Emission.run_bind_eq_ok.mp h
      obtain ⟨rfl, rfl⟩ := Emission.run_get_eq_ok.mp hget
      split at h
      · rename_i hmem
        obtain ⟨rfl, rfl⟩ := Emission.run_pure_eq_ok.mp h
        exact .step (.skip hmem) rest
      · rename_i hnew
        obtain ⟨_, _, hset, h⟩ := Emission.run_bind_eq_ok.mp h
        obtain rfl := Emission.run_set_eq_ok.mp hset
        split at h
        · rename_i hbubble
          obtain ⟨rfl, rfl⟩ := Emission.run_pure_eq_ok.mp h
          exact .step (.unknown hnew hbubble) rest
        · rename_i b hbubble
          obtain rfl := Scene.uid_of_bubble? hbubble
          obtain ⟨body, hitems, hbody⟩ := of_block ih h rest
          rw [hitems]
          exact .step (.take hnew hbubble) hbody

theorem of_emitAll {limit : Nat} {us : List Uid} {g g₁ : Progress} {items : List Item}
    (h : (p.emitAll limit us).run g = .ok (items, g₁)) :
    Emits p g (us.map (.bubble 0)) items g₁ := by
  induction us generalizing g items with
  | nil =>
      obtain ⟨rfl, rfl⟩ := Emission.run_pure_eq_ok.mp h
      exact .done g
  | cons u us ih =>
      obtain ⟨_, _, hfirst, h⟩ := Emission.run_bind_eq_ok.mp h
      obtain ⟨_, _, hothers, h⟩ := Emission.run_bind_eq_ok.mp h
      obtain ⟨rfl, rfl⟩ := Emission.run_pure_eq_ok.mp h
      exact sound_emitBubble p limit (limit + 1) hfirst (ih hothers)

end Emits

end StoryGraph
