import StoryGraph.Proofs.Script.Pass

/-!
# Where the code of a bubble stands

Wherever a mark stands in the code of a pass, what follows it is the code of the parts of its bubble, and
of other parts that waited; and every label stands right before the mark of its bubble. The levels of the
parts that wait are nested: what comes after the code behind a slot begins no deeper than that code, so
that the blocks of a choice or a condition end where their lines do.
-/

namespace StoryGraph

/-! ## Levels -/

/-- The level of a line. -/
def Item.level? : Item → Option Nat
  | .line level _ => some level
  | .enter _ | .blank => none

/-- The level of the first line of a list of items. -/
def nextLevel? (items : List Item) : Option Nat := items.findSome? Item.level?

theorem nextLevel?_append (items code : List Item) :
    nextLevel? (items ++ code) = (nextLevel? items).or (nextLevel? code) := List.findSome?_append

/-- Whether the first line that parts lead to is no deeper than a level. -/
def Opens (level : Nat) : List Part → Prop
  | [] => True
  | .item (.line l _) :: _ => l ≤ level
  | .item _ :: parts => Opens level parts
  | .slot _ l :: parts | .entry _ l :: parts | .bubble l _ :: parts => l ≤ level ∧ Opens level parts

/-- Whether parts are nested: behind a slot or a bubble at a level the next line is no deeper than that,
and items that are written as they are carry neither marks nor labels. -/
def Nested (p : LabelPolicy) : List Part → Prop
  | [] => True
  | .item i :: parts => i.IsPlain 0 ∧ Nested p parts
  | .slot _ level :: parts => Opens level parts ∧ Nested p parts
  | .entry _ level :: parts => level = 0 ∧ Opens 0 parts ∧ Nested p parts
  | .bubble level u :: parts =>
      (Opens (p.levelOf level u) parts ∧
        ∀ b, p.scene.bubble? u = some b → b.isStart → p.levelOf level u = 0) ∧ Nested p parts

theorem Opens.mono {level level' : Nat} (hle : level ≤ level') {parts : List Part}
    (h : Opens level parts) : Opens level' parts := by
  induction parts with
  | nil => trivial
  | cons part parts ih =>
      cases part with
      | item i =>
          cases i with
          | line l st => exact Nat.le_trans h hle
          | enter | blank => exact ih h
      | slot | entry | bubble => exact ⟨Nat.le_trans h.1 hle, ih h.2⟩

theorem Item.IsPlain.mono {level level' : Nat} {i : Item} (hle : level' ≤ level)
    (h : i.IsPlain level) : i.IsPlain level' := by
  cases i with
  | enter u => exact h
  | blank => trivial
  | line l st =>
      cases st with
      | label | goto => exact h
      | _ => exact Nat.le_trans hle h

/-- Items in front of parts change nothing about where these lead. -/
theorem opens_items {level : Nat} {items : List Item} {parts : List Part}
    (hitems : ∀ i ∈ items, ∀ l ∈ i.level?, l ≤ level) (h : Opens level parts) :
    Opens level (items.map .item ++ parts) := by
  induction items with
  | nil => exact h
  | cons i items ih =>
      have hrest := ih fun j hj ↦ hitems j (List.mem_cons_of_mem _ hj)
      cases i with
      | line l st => exact hitems _ List.mem_cons_self l rfl
      | enter | blank => exact hrest

theorem level_of_mem_ofText {level : Nat} {text : String} {i : Item}
    (h : i ∈ Item.ofText level text) : ∀ l ∈ i.level?, l ≤ level := by
  obtain ⟨line, -, rfl⟩ := List.mem_map.mp h
  intro l hl
  split at hl
  · simp [Item.level?] at hl
  · obtain rfl : level = l := by simpa [Item.level?] using hl
    exact Nat.le_refl _

/-- The parts of a bubble begin at its level. -/
theorem opens_parts {level : Nat} {parts : List Part} (h : Opens level parts) (b : Bubble) {l : Nat}
    (hle : l ≤ level) : Opens level (b.parts l ++ parts) := by
  unfold Bubble.parts
  split
  · exact ⟨hle, h⟩
  · rw [List.append_assoc]
    exact opens_items (fun i hi j hj ↦ Nat.le_trans (level_of_mem_ofText hi j hj) hle) ⟨hle, h⟩
  · rw [List.append_assoc]
    exact opens_items (fun i hi j hj ↦ Nat.le_trans (level_of_mem_ofText hi j hj) hle) ⟨hle, h⟩
  · exact hle
  · exact hle

theorem nested_items {p : LabelPolicy} {items : List Item} {parts : List Part}
    (hitems : ∀ i ∈ items, i.IsPlain 0) (h : Nested p parts) :
    Nested p (items.map .item ++ parts) := by
  induction items with
  | nil => exact h
  | cons i items ih =>
      exact ⟨hitems i List.mem_cons_self, ih fun j hj ↦ hitems j (List.mem_cons_of_mem _ hj)⟩

/-- After an option comes the next one, or what comes after the choice. -/
theorem opens_options {level : Nat} {parts : List Part} (h : Opens level parts)
    (options : List ChoiceOption) :
    Opens (level + 2) (options.flatMap (·.parts level) ++ parts) := by
  cases options with
  | nil => exact h.mono (Nat.le_add_right level 2)
  | cons o options => exact Nat.le_succ (level + 1)

theorem nested_options {p : LabelPolicy} {level : Nat} {parts : List Part} (hopens : Opens level parts)
    (h : Nested p parts) (options : List ChoiceOption) :
    Nested p (options.flatMap (·.parts level) ++ parts) := by
  induction options with
  | nil => exact h
  | cons o options ih => exact ⟨Nat.zero_le _, opens_options hopens options, ih⟩

/-- The parts of a bubble are nested where those are that wait, and these begin no deeper. -/
theorem nested_parts {p : LabelPolicy} {level : Nat} {parts : List Part} (hopens : Opens level parts)
    (h : Nested p parts) (b : Bubble) (hstart : b.isStart → level = 0) :
    Nested p (b.parts level ++ parts) := by
  unfold Bubble.parts
  split
  · rename_i hkind
    have hzero := hstart (Bubble.isStart_iff.mpr hkind)
    exact ⟨hzero, hzero ▸ hopens, h⟩
  · rw [List.append_assoc]
    exact nested_items (fun i hi ↦ (isPlain_of_mem_ofText hi).mono (Nat.zero_le _)) ⟨hopens, h⟩
  · rw [List.append_assoc]
    exact nested_items (fun i hi ↦ (isPlain_of_mem_ofText hi).mono (Nat.zero_le _)) ⟨hopens, h⟩
  · exact ⟨Nat.zero_le _, nested_options hopens h _⟩
  · exact ⟨Nat.zero_le _, Nat.le_succ level, Nat.zero_le _, hopens.mono (Nat.le_succ level), h⟩

theorem levelOf_zero (p : LabelPolicy) (u : Uid) : p.levelOf 0 u = 0 := by simp [LabelPolicy.levelOf]

theorem levelOf_of_not_needsLabel {p : LabelPolicy} {u : Uid} (h : ¬ p.needsLabel u) (level : Nat) :
    p.levelOf level u = level := if_neg h

theorem opens_roots (us : List Uid) : Opens 0 (us.map (.bubble 0)) := by
  induction us with
  | nil => trivial
  | cons u us ih => exact ⟨Nat.le_refl 0, ih⟩

theorem nested_roots (p : LabelPolicy) (us : List Uid) : Nested p (us.map (.bubble 0)) := by
  induction us with
  | nil => trivial
  | cons u us ih =>
      refine ⟨⟨?_, fun _ _ _ ↦ levelOf_zero p u⟩, ih⟩
      rw [levelOf_zero]
      exact opens_roots us

namespace Step

variable {p : LabelPolicy} {g g₁ : Progress} {part : Part} {front parts : List Part}
  {items : List Item}

/-- A step keeps parts nested. -/
theorem nested (hwf : p.scene.WellFormed) (h : Step p g part items g₁ front)
    (hnested : Nested p (part :: parts)) : Nested p (front ++ parts) := by
  cases h with
  | inline hlink hlabel =>
      obtain ⟨b, hb, -, hstart⟩ := hwf.exists_target_of_link? hlink
      refine ⟨⟨levelOf_of_not_needsLabel hlabel _ ▸ hnested.1, ?_⟩, hnested.2⟩
      intro b' hb' hstart'
      obtain rfl := Option.some.inj (hb.symm.trans hb')
      simp [hstart] at hstart'
  | @entry _ level c hlink =>
      obtain ⟨rfl, hopens, hparts⟩ := hnested
      refine ⟨⟨?_, fun _ _ _ ↦ levelOf_zero p c.target⟩, hparts⟩
      rw [levelOf_zero]
      exact hopens
  | take hnew hbubble =>
      obtain ⟨⟨hopens, hstart⟩, hparts⟩ := hnested
      exact nested_parts hopens hparts _ (hstart _ hbubble)
  | entryFinish => exact hnested.2.2
  | _ => exact hnested.2

/-- A step writes a line no deeper than a level, or no line at all. -/
theorem opens (h : Step p g part items g₁ front) {level : Nat}
    (hopens : Opens level (part :: parts)) :
    (∃ l ≤ level, nextLevel? items = some l) ∨
      nextLevel? items = none ∧ Opens level (front ++ parts) := by
  cases h with
  | @item i =>
      cases i with
      | line l st => exact .inl ⟨l, hopens, rfl⟩
      | enter | blank => exact .inr ⟨rfl, hopens⟩
  | finish | jump | entryFinish => exact .inl ⟨_, hopens.1, rfl⟩
  | strand | skip | unknown => exact .inr ⟨rfl, hopens.2⟩
  | inline | entry => exact .inr ⟨rfl, hopens⟩
  | @take l u b hnew hbubble =>
      by_cases hlabel : p.needsLabel u
      · exact .inl ⟨0, Nat.zero_le level, by rw [LabelPolicy.heading, if_pos hlabel]; rfl⟩
      · refine .inr ⟨by rw [LabelPolicy.heading, if_neg hlabel]; rfl, ?_⟩
        rw [levelOf_of_not_needsLabel hlabel]
        exact opens_parts hopens.2 b hopens.1

end Step

namespace Emits

variable {p : LabelPolicy} {g g' : Progress} {parts : List Part} {code : List Item}

/-- The first line of the code is as deep as the parts say. -/
theorem nextLevel?_le (h : Emits p g parts code g') {level : Nat} (hopens : Opens level parts) :
    ∀ l ∈ nextLevel? code, l ≤ level := by
  induction h with
  | done g => simp [nextLevel?]
  | step first rest ih =>
      rw [nextLevel?_append]
      rcases first.opens hopens with ⟨l, hl, hitems⟩ | ⟨hitems, hrest⟩
      · simpa [hitems] using hl
      · simpa [hitems] using ih hrest

end Emits

/-! ## Blocks -/

/-- Whether the lines of a list of items stand at a level or deeper. -/
def IsBlock (level : Nat) (items : List Item) : Prop := ∀ i ∈ items, ∀ l ∈ i.level?, level ≤ l

theorem isBlock_zero (items : List Item) : IsBlock 0 items := fun _ _ l _ ↦ l.zero_le

@[simp] theorem isBlock_nil (level : Nat) : IsBlock level [] := fun _ hi ↦ nomatch hi

@[simp] theorem isBlock_cons {level : Nat} {i : Item} {items : List Item} :
    IsBlock level (i :: items) ↔ (∀ l ∈ i.level?, level ≤ l) ∧ IsBlock level items :=
  List.forall_mem_cons

theorem isBlock_append {level : Nat} {items others : List Item} :
    IsBlock level (items ++ others) ↔ IsBlock level items ∧ IsBlock level others :=
  List.forall_mem_append

/-- Whether what a part leads to stands at a level or deeper, with no label to take it out. -/
def Part.IsDeep (p : LabelPolicy) (level : Nat) : Part → Prop
  | .item i => i.IsPlain level
  | .slot _ l => level ≤ l
  | .entry _ _ => False
  | .bubble l u =>
      level ≤ l ∧ ¬ p.needsLabel u ∧ ∃ b, p.scene.bubble? u = some b ∧ b.isStart = false

theorem Item.IsPlain.le_level {level : Nat} {i : Item} (h : i.IsPlain level) :
    ∀ l ∈ i.level?, level ≤ l := by
  intro l hl
  cases i with
  | enter | blank => simp [level?] at hl
  | line l' st =>
      obtain rfl := Option.some.inj hl
      cases st with
      | label | goto => exact absurd h id
      | _ => exact h

theorem isDeep_of_mem_parts {p : LabelPolicy} {b : Bubble} (hstart : b.isStart = false)
    {level l : Nat} (hle : level ≤ l) {part : Part} (h : part ∈ b.parts l) : part.IsDeep p level := by
  have hof := isOf_of_mem_parts h
  cases part with
  | item i => exact Item.IsPlain.mono hle hof
  | slot => exact Nat.le_trans hle hof
  | entry => simp [Part.IsOf, hstart] at hof
  | bubble => exact absurd hof id

/-- A step keeps to a level. -/
theorem Step.isDeep {p : LabelPolicy} (hwf : p.scene.WellFormed) {g g₁ : Progress} {part : Part}
    {items : List Item} {front : List Part} (h : Step p g part items g₁ front) {level : Nat}
    (hdeep : part.IsDeep p level) :
    IsBlock level items ∧ ∀ q ∈ front, q.IsDeep p level := by
  cases h with
  | item => exact ⟨by simpa using hdeep.le_level, by simp⟩
  | finish | jump => exact ⟨by simpa [Item.level?, Part.IsDeep] using hdeep, by simp⟩
  | strand | skip | unknown => exact ⟨by simp, by simp⟩
  | inline hlink hlabel =>
      obtain ⟨b, hb, -, hstart⟩ := hwf.exists_target_of_link? hlink
      exact ⟨by simp, by simpa using ⟨hdeep, hlabel, b, hb, hstart⟩⟩
  | entryFinish | entry => exact absurd hdeep id
  | take hnew hbubble =>
      obtain ⟨hle, hlabel, b, hb, hstart⟩ := hdeep
      obtain rfl := Option.some.inj (hb.symm.trans hbubble)
      rw [levelOf_of_not_needsLabel hlabel, LabelPolicy.heading, if_neg hlabel]
      exact ⟨by simp [Item.level?], fun q ↦ isDeep_of_mem_parts hstart hle⟩

namespace Emits

variable {p : LabelPolicy} (hwf : p.scene.WellFormed) {g g' : Progress} {parts : List Part}
  {code : List Item} {level : Nat}

include hwf

/-- The code of deep parts is a block. -/
theorem isBlock (h : Emits p g parts code g') (hdeep : ∀ part ∈ parts, part.IsDeep p level) :
    IsBlock level code := by
  induction h with
  | done g => exact isBlock_nil level
  | step first rest ih =>
      obtain ⟨hpart, hparts⟩ := List.forall_mem_cons.mp hdeep
      obtain ⟨hitems, hfront⟩ := first.isDeep hwf hpart
      have hrest := ih fun q hq ↦ (List.mem_append.mp hq).elim (hfront q) (hparts q)
      exact isBlock_append.mpr ⟨hitems, hrest⟩

theorem isBlock_slot {slot : Slot} (h : Emits p g [.slot slot level] code g') : IsBlock level code :=
  h.isBlock hwf (List.forall_mem_singleton.mpr (Nat.le_refl level))

/-- Behind a slot comes a block, and then the other parts. -/
theorem of_slot {slot : Slot} (h : Emits p g (.slot slot level :: parts) code g') :
    ∃ block rest g₁, code = block ++ rest ∧ IsBlock level block ∧ Emits p g₁ parts rest g' := by
  obtain ⟨block, g₁, rest, rfl, hblock, hrest⟩ := h.split [.slot slot level]
  exact ⟨block, rest, g₁, rfl, hblock.isBlock_slot hwf, hrest⟩

end Emits

/-! ## Marks and labels -/

/-- A place in a list that is put together from two lies in one of them. -/
theorem cons_suffix_append {α : Type} {x : α} {rest first second : List α}
    (h : (x :: rest) <:+ first ++ second) :
    (∃ before after, first = before ++ x :: after ∧ rest = after ++ second) ∨
      (x :: rest) <:+ second := by
  obtain ⟨t, ht⟩ := h
  rcases List.append_eq_append_iff.mp ht with ⟨after, rfl, hrest⟩ | ⟨before, rfl, hsecond⟩
  · cases after with
    | nil => exact .inr ⟨[], hrest⟩
    | cons y after =>
        obtain ⟨rfl, rfl⟩ := List.cons.inj hrest
        exact .inl ⟨t, after, rfl, rfl⟩
  · exact .inr ⟨before, hsecond.symm⟩

namespace LabelPolicy

variable {p : LabelPolicy}

theorem heading_eq_append_enter {u v : Uid} {before after : List Item}
    (h : p.heading u = before ++ .enter v :: after) : v = u ∧ after = [] := by
  unfold heading at h
  split at h <;> simp_all [List.cons_eq_append_iff]

theorem heading_eq_append_label {u : Uid} {before after : List Item} {level : Nat} {name : String}
    (h : p.heading u = before ++ .line level (.label name) :: after) :
    p.needsLabel u ∧ name = p.labelName u ∧ after = [.enter u] := by
  unfold heading at h
  split at h <;> simp_all [List.cons_eq_append_iff]

end LabelPolicy

/-- An item that a step writes is a plain one, the end of the scene, a jump, or of the heading of the
bubble that the step is about. -/
theorem Step.items_eq {p : LabelPolicy} {g g₁ : Progress} {part : Part} {front : List Part}
    {items : List Item} (h : Step p g part items g₁ front) :
    (∃ i, part = .item i ∧ items = [i]) ∨ (∃ level st, items = [.line level st] ∧ ∀ n, st ≠ .label n) ∨
      items = [] ∨ ∃ level u b, part = .bubble level u ∧ p.scene.bubble? u = some b ∧
        items = p.heading u ∧ front = b.parts (p.levelOf level u) := by
  cases h with
  | @item i => exact .inl ⟨i, rfl, rfl⟩
  | finish | jump | entryFinish => exact .inr (.inl ⟨_, _, rfl, by simp⟩)
  | @take level u b _ hbubble => exact .inr (.inr (.inr ⟨level, u, b, rfl, hbubble, rfl, rfl⟩))
  | _ => exact .inr (.inr (.inl rfl))

namespace Emits

variable {p : LabelPolicy} {g g' : Progress} {parts : List Part} {code : List Item}

/-- What follows a mark is the code of its bubble, and then what begins no deeper. -/
theorem of_enter_suffix (hwf : p.scene.WellFormed) (h : Emits p g parts code g')
    (hnested : Nested p parts) {u : Uid} {rest : List Item} (hplace : (.enter u :: rest) <:+ code) :
    ∃ b level g₁ others, p.scene.bubble? u = some b ∧ Opens level others ∧
      Emits p g₁ (b.parts level ++ others) rest g' := by
  induction h with
  | done g => simp at hplace
  | @step g g₁ g' part front parts items code first later ih =>
      rcases cons_suffix_append hplace with ⟨before, after, hitems, rfl⟩ | hplace
      · have hmem : .enter u ∈ items := hitems ▸ List.mem_append_right _ List.mem_cons_self
        rcases first.items_eq with ⟨i, rfl, rfl⟩ | ⟨_, _, rfl, -⟩ | rfl | ⟨level, v, b, rfl, hb, rfl, rfl⟩
        · obtain rfl := List.mem_singleton.mp hmem
          exact absurd hnested.1 id
        · simp at hmem
        · simp at hmem
        · obtain ⟨rfl, rfl⟩ := LabelPolicy.heading_eq_append_enter hitems
          exact ⟨b, _, g₁, parts, hb, hnested.1.1, later⟩
      · exact ih (first.nested hwf hnested) hplace

/-- What follows a label is the mark of the bubble that it names. -/
theorem of_label_suffix (hwf : p.scene.WellFormed) (h : Emits p g parts code g')
    (hnested : Nested p parts) {level : Nat} {name : String} {rest : List Item}
    (hplace : (.line level (.label name) :: rest) <:+ code) :
    ∃ u b rest', p.scene.bubble? u = some b ∧ p.needsLabel u ∧ name = p.labelName u ∧
      rest = .enter u :: rest' := by
  induction h with
  | done g => simp at hplace
  | @step g g₁ g' part front parts items code first later ih =>
      rcases cons_suffix_append hplace with ⟨before, after, hitems, rfl⟩ | hplace
      · have hmem : .line level (.label name) ∈ items :=
          hitems ▸ List.mem_append_right _ List.mem_cons_self
        rcases first.items_eq with ⟨i, rfl, rfl⟩ | ⟨_, st, rfl, hst⟩ | rfl | ⟨_, v, b, -, hb, rfl, -⟩
        · obtain rfl := List.mem_singleton.mp hmem
          exact absurd hnested.1 id
        · obtain ⟨-, rfl⟩ := Item.line.inj (List.mem_singleton.mp hmem)
          exact absurd rfl (hst name)
        · simp at hmem
        · obtain ⟨hlabel, rfl, rfl⟩ := LabelPolicy.heading_eq_append_label hitems
          exact ⟨v, b, code, hb, hlabel, rfl, rfl⟩
      · exact ih (first.nested hwf hnested) hplace

end Emits

end StoryGraph
