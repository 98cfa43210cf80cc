import StoryGraph.Proofs.Script.Pass

/-!
# Where emission stops

The parts of a bubble are emitted one after the other, until one gives way to a bubble in line where
emission fails. So what is wrong with a bubble is wrong with one that a link of it leads to, once the pass
has come there. What follows a bubble in line is a parameter here, as it is in the emitter.
-/

namespace StoryGraph

/-! ## The monad of the emitter -/

namespace Emission

variable {α β : Type} {g g' : Progress} {e : Error}

theorem run_bind_eq_error {x : Emission α} {f : α → Emission β} (h : (x >>= f).run g = .error e) :
    x.run g = .error e ∨ ∃ a g₁, x.run g = .ok (a, g₁) ∧ (f a).run g₁ = .error e := by
  rw [StateT.run_bind] at h
  cases hx : x.run g with
  | error e' =>
      rw [hx] at h
      exact .inl (congrArg Except.error (Except.error.inj h))
  | ok result =>
      rw [hx] at h
      exact .inr ⟨result.1, result.2, rfl, h⟩

theorem run_pure_ne_error {a : α} : (pure a : Emission α).run g ≠ .error e := nofun

theorem run_get_bind {f : Progress → Emission β} : (get >>= f).run g = (f g).run g := rfl

theorem run_set_bind {f : PUnit → Emission β} : (set g' >>= f).run g = (f ⟨⟩).run g' := rfl

theorem run_throw_eq_error {e' : Error} (h : (throw e' : Emission α).run g = .error e) : e' = e :=
  Except.error.inj h

end Emission

/-- `Stops p inline e g parts`: emission of the parts comes to one that gives way to a bubble in line, and
`inline` fails there. -/
inductive Stops (p : LabelPolicy) (inline : Nat → Uid → Emission (List Item)) (e : Error) :
    Progress → List Part → Prop
  | here {g : Progress} {part : Part} {parts : List Part} {level : Nat} {u : Uid}
      (first : Step p g part [] g [.bubble level u]) (hfail : (inline level u).run g = .error e) :
      Stops p inline e g (part :: parts)
  | later {g g₁ : Progress} {part : Part} {parts : List Part} {items : List Item}
      (first : Emits p g [part] items g₁) (rest : Stops p inline e g₁ parts) :
      Stops p inline e g (part :: parts)

namespace Stops

variable {p : LabelPolicy} {inline : Nat → Uid → Emission (List Item)} {e : Error} {g : Progress}
  {parts : List Part}

/-- What comes behind a part that fails does not matter. -/
theorem append (h : Stops p inline e g parts) (waiting : List Part) :
    Stops p inline e g (parts ++ waiting) := by
  induction h with
  | here first hfail => exact .here first hfail
  | later first _ ih => exact .later first ih

theorem after_item {i : Item} (rest : Stops p inline e g parts) : Stops p inline e g (.item i :: parts) :=
  .later (.item (.done g)) rest

theorem after_items (items : List Item) (rest : Stops p inline e g parts) :
    Stops p inline e g (items.map .item ++ parts) := by
  induction items with
  | nil => exact rest
  | cons i items ih => exact .after_item ih

/-- It is one of the parts that gives way, and by then no less has been emitted. -/
theorem exists_part (h : Stops p inline e g parts) :
    ∃ part ∈ parts, ∃ g₁ level u, g.emitted <:+ g₁.emitted ∧ Step p g₁ part [] g₁ [.bubble level u] ∧
      (inline level u).run g₁ = .error e := by
  induction h with
  | here first hfail => exact ⟨_, List.mem_cons_self, _, _, _, List.suffix_rfl, first, hfail⟩
  | later first _ ih =>
      obtain ⟨part, hmem, g₁, level, u, hsuffix, hstep, hfail⟩ := ih
      exact ⟨part, List.mem_cons_of_mem _ hmem, g₁, level, u, first.emitted_suffix.trans hsuffix, hstep,
        hfail⟩

/-! ## The parts of a bubble -/

theorem of_follow {slot : Slot} {level : Nat} (h : (p.follow inline slot level).run g = .error e) :
    Stops p inline e g [.slot slot level] := by
  unfold LabelPolicy.follow at h
  split at h
  · exact absurd h Emission.run_pure_ne_error
  · rename_i c hlink
    split at h
    · exact absurd h Emission.run_pure_ne_error
    · rename_i hlabel
      rw [Emission.run_get_bind] at h
      split at h
      · rw [Emission.run_set_bind] at h
        exact absurd h Emission.run_pure_ne_error
      · rename_i hnew
        exact .here (.inline hlink hlabel hnew) h

variable (hinline : Emits.Sound p inline)

include hinline

theorem of_options {level : Nat} {options : List ChoiceOption}
    (h : (p.options inline level options).run g = .error e) :
    Stops p inline e g (options.flatMap (·.parts level)) := by
  induction options generalizing g with
  | nil => exact absurd h Emission.run_pure_ne_error
  | cons o options ih =>
      rcases Emission.run_bind_eq_error h with h | ⟨_, _, hfirst, h⟩
      · exact .after_item ((of_follow h).append _)
      · rcases Emission.run_bind_eq_error h with h | ⟨_, _, -, h⟩
        · exact .after_item (.later (Emits.of_follow hinline hfirst (.done _)) (ih h))
        · exact absurd h Emission.run_pure_ne_error

theorem of_body {level : Nat} {b : Bubble}
    (h : (p.body inline level b.uid b.kind).run g = .error e) :
    Stops p inline e g (b.parts level) := by
  unfold LabelPolicy.body at h
  unfold Bubble.parts
  cases hkind : b.kind with
  | start =>
      simp only [hkind] at h
      split at h
      · exact absurd h Emission.run_pure_ne_error
      · rename_i c hlink
        exact .here (.entry hlink) h
  | story text | action text =>
      simp only [hkind] at h
      rcases Emission.run_bind_eq_error h with h | ⟨_, _, -, h⟩
      · exact .after_items _ (of_follow h)
      · exact absurd h Emission.run_pure_ne_error
  | choice options =>
      simp only [hkind] at h
      rcases Emission.run_bind_eq_error h with h | ⟨_, _, -, h⟩
      · exact .after_item (of_options hinline h)
      · exact absurd h Emission.run_pure_ne_error
  | condition expression =>
      simp only [hkind] at h
      rcases Emission.run_bind_eq_error h with h | ⟨_, _, hholds, h⟩
      · exact .after_item ((of_follow h).append _)
      · rcases Emission.run_bind_eq_error h with h | ⟨_, _, -, h⟩
        · have hslot := Emits.of_follow hinline hholds (.done _)
          exact .after_item (.later hslot (.after_item (of_follow h)))
        · exact absurd h Emission.run_pure_ne_error

theorem of_block {level : Nat} {b : Bubble} (h : (p.block inline level b).run g = .error e) :
    Stops p inline e g (b.parts (p.levelOf level b.uid)) := by
  unfold LabelPolicy.block at h
  unfold LabelPolicy.levelOf
  split at h
  · rename_i hlabel
    rw [if_pos hlabel]
    rcases Emission.run_bind_eq_error h with h | ⟨_, _, -, h⟩
    · exact of_body hinline h
    · exact absurd h Emission.run_pure_ne_error
  · rename_i hlabel
    rw [if_neg hlabel]
    rcases Emission.run_bind_eq_error h with h | ⟨_, _, -, h⟩
    · exact of_body hinline h
    · exact absurd h Emission.run_pure_ne_error

end Stops

/-! ## Bubbles -/

/-- Where a bubble fails for which there is room, its parts do. -/
theorem stops_of_emitBubble {p : LabelPolicy} {limit room level : Nat} {u : Uid} {g : Progress} {e : Error}
    (h : (p.emitBubble limit (room + 1) level u).run g = .error e) :
    u ∉ g.emitted ∧ ∃ b, p.scene.bubble? u = some b ∧
      Stops p (p.emitBubble limit room) e ⟨u :: g.emitted, g.stranded⟩ (b.parts (p.levelOf level u)) := by
  rw [LabelPolicy.emitBubble, Emission.run_get_bind] at h
  split at h
  · exact absurd h Emission.run_pure_ne_error
  · rename_i hnew
    rw [Emission.run_set_bind] at h
    split at h
    · exact absurd h Emission.run_pure_ne_error
    · rename_i b hbubble
      obtain rfl := Scene.uid_of_bubble? hbubble
      exact ⟨hnew, b, hbubble, .of_block (Emits.sound_emitBubble p limit room) h⟩

/-- A bubble for which there is no room fails if it has not been emitted. -/
theorem eq_of_emitBubble_zero {p : LabelPolicy} {limit level : Nat} {u : Uid} {g : Progress} {e : Error}
    (h : (p.emitBubble limit 0 level u).run g = .error e) :
    u ∉ g.emitted ∧ e = .depthLimitExceeded u limit := by
  rw [LabelPolicy.emitBubble, Emission.run_get_bind] at h
  split at h
  · exact absurd h Emission.run_pure_ne_error
  · exact ⟨‹_›, (Emission.run_throw_eq_error h).symm⟩

end StoryGraph
