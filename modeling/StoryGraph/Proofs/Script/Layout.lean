import StoryGraph.Proofs.Script.Margin
import StoryGraph.Proofs.Script.Naming
import StoryGraph.Proofs.Script.Place

/-!
# Indentation encodes nesting

Whatever the texts of a scene are, the items that a bubble writes are nested as its kind asks for: the
blocks behind the options of a choice and in the branches of a condition stand deeper than the lines that
open them, together with all that follows there in line.

The text of the script shows that nesting as far as each line is one line. Stories and actions are taken
apart for that. The text of an option, the expression of a condition and a label are not, so that a line
feed in one of them leaves its block.
-/

namespace StoryGraph

open Text

/-! ## Nested items -/

/-- `Offers level options items`: each option has a line one level deeper than its choice, and behind it a
block that is deeper still. -/
inductive Offers (level : Nat) : List ChoiceOption → List Item → Prop
  | nil : Offers level [] []
  | cons {o : ChoiceOption} {options : List ChoiceOption} {block rest : List Item}
      (hblock : IsBlock (level + 2) block) (hrest : Offers level options rest) :
      Offers level (o :: options) (.line (level + 1) (.option o.text) :: block ++ rest)

/-- `Nests level kind items`: the items of a bubble of a kind, with all that follows it in line, are nested
from a level on. -/
inductive Nests (level : Nat) : BubbleKind → List Item → Prop
  | start {items : List Item} (hitems : IsBlock level items) : Nests level .start items
  | story {text : String} {rest : List Item} (hrest : IsBlock level rest) :
      Nests level (.story text) (Item.ofText level text ++ rest)
  | action {script : String} {rest : List Item} (hrest : IsBlock level rest) :
      Nests level (.action script) (Item.ofText level script ++ rest)
  | choice {options : List ChoiceOption} {answers : List Item} (hanswers : Offers level options answers) :
      Nests level (.choice options) (.line level .choice :: answers)
  | condition {expression : String} {holds fails : List Item} (hholds : IsBlock (level + 1) holds)
      (hfails : IsBlock (level + 1) fails) :
      Nests level (.condition expression)
        (.line level (.branch expression) :: holds ++ .line level .otherwise :: fails)

namespace Emits

variable {p : LabelPolicy} (hwf : p.scene.WellFormed) {g g' : Progress} {level : Nat}
  {code : List Item}

include hwf

theorem offers {options : List ChoiceOption} (h : Emits p g (options.flatMap (·.parts level)) code g') :
    Offers level options code := by
  induction options generalizing g code with
  | nil =>
      cases h
      exact .nil
  | cons o options ih =>
      obtain ⟨rest, rfl, hrest⟩ := h.of_item
      obtain ⟨block, later, g₁, rfl, hblock, hlater⟩ := hrest.of_slot hwf
      exact .cons hblock (ih hlater)

/-- Behind the lines of a text comes a block. -/
theorem exists_isBlock_of_text {text : String} {slot : Slot}
    (h : Emits p g ((Item.ofText level text).map .item ++ [.slot slot level]) code g') :
    ∃ rest, code = Item.ofText level text ++ rest ∧ IsBlock level rest := by
  obtain ⟨rest, rfl, hrest⟩ := h.of_map_item
  exact ⟨rest, rfl, hrest.isBlock_slot hwf⟩

/-- The parts of a bubble are emitted as items that are nested, those of a start at the front. -/
theorem nests {b : Bubble} (hstart : b.isStart → level = 0) (h : Emits p g (b.parts level) code g') :
    Nests level b.kind code := by
  unfold Bubble.parts at h
  cases hkind : b.kind with
  | start =>
      obtain rfl := hstart (Bubble.isStart_iff.mpr hkind)
      exact .start (isBlock_zero code)
  | story text =>
      simp only [hkind] at h
      obtain ⟨rest, rfl, hrest⟩ := h.exists_isBlock_of_text hwf
      exact .story hrest
  | action script =>
      simp only [hkind] at h
      obtain ⟨rest, rfl, hrest⟩ := h.exists_isBlock_of_text hwf
      exact .action hrest
  | choice options =>
      simp only [hkind] at h
      obtain ⟨answers, rfl, hanswers⟩ := h.of_item
      exact .choice (hanswers.offers hwf)
  | condition expression =>
      simp only [hkind] at h
      obtain ⟨later, rfl, hlater⟩ := h.of_item
      obtain ⟨holds, others, g₁, rfl, hholds, hothers⟩ := hlater.of_slot hwf
      obtain ⟨fails, rfl, hfails⟩ := hothers.of_item
      exact .condition hholds (hfails.isBlock_slot hwf)

end Emits

/-! ## Texts that go on one line -/

/-- The texts of a bubble that go on one line each, as they are. -/
def Bubble.lineTexts (b : Bubble) : List String :=
  b.label :: match b.kind with
    | .choice options => options.map (·.text)
    | .condition expression => [expression]
    | .start | .story _ | .action _ => []

/-- Whether all texts of a scene that go on one line are on one. -/
def Scene.IsUnbroken (s : Scene) : Prop := ∀ b ∈ s.bubbles, ∀ text ∈ b.lineTexts, IsOneLine text

instance (s : Scene) : Decidable s.IsUnbroken :=
  inferInstanceAs (Decidable (∀ b ∈ s.bubbles, ∀ text ∈ b.lineTexts, IsOneLine text))

theorem Uid.isOneLine_toString (u : Uid) : IsOneLine (toString u) := by
  change '\n' ∉ u.toNat.repr.toList
  rw [Nat.toList_repr]
  intro hmem
  have hdigit := Nat.isDigit_of_mem_toDigits (by decide) (by decide) hmem
  exact absurd hdigit (by decide)

namespace Labelling

theorem isOneLine_uidCopies (u : Uid) (n : Nat) : IsOneLine (uidCopies u n) := by
  induction n with
  | zero => exact List.not_mem_nil
  | succ n ih =>
      have hmark : IsOneLine "_" := by decide
      exact isOneLine_append.mpr ⟨isOneLine_append.mpr ⟨hmark, u.isOneLine_toString⟩, ih⟩

variable {l : Labelling} (hs : l.scene.IsUnbroken)

include hs

theorem isOneLine_userLabel (u : Uid) : IsOneLine (l.userLabel u) := by
  unfold userLabel
  split
  · exact List.not_mem_nil
  · rename_i b hb
    have hlabel := hs b (Scene.mem_of_bubble? hb) b.label List.mem_cons_self
    rw [IsOneLine, String.toList_ofList, List.mem_map]
    rintro ⟨c, hc, heq⟩
    split at heq
    · exact absurd heq (by decide)
    · exact hlabel (heq ▸ hc)

theorem isOneLine_baseName (u : Uid) : IsOneLine (l.baseName u) := by
  unfold baseName
  simp only
  split
  · have hbubble : IsOneLine "bubble_" := by decide
    exact isOneLine_append.mpr ⟨hbubble, u.isOneLine_toString⟩
  · exact isOneLine_userLabel hs u

end Labelling

theorem LabelPolicy.isOneLine_labelName {p : LabelPolicy} (hs : p.scene.IsUnbroken) (u : Uid) :
    IsOneLine (p.labelName u) := by
  obtain ⟨n, hname⟩ := p.exists_labelName_eq_append u
  rw [hname]
  exact isOneLine_append.mpr ⟨Labelling.isOneLine_baseName hs u, Labelling.isOneLine_uidCopies u n⟩

/-- The text that a statement is about. -/
def Statement.words : Statement → String
  | .text words => words
  | .label name | .goto name => name
  | .option answer => answer
  | .branch expression => expression
  | .finish | .choice | .otherwise => ""

/-- The words around that text have no line feed. -/
theorem Statement.isOneLine_render {st : Statement} : IsOneLine st.render ↔ IsOneLine st.words := by
  cases st with
  | text => rfl
  | label | goto | option => exact isOneLine_append.trans (and_iff_right (by decide))
  | finish | choice | otherwise => exact iff_of_true (by decide) (by decide)
  | branch =>
      refine isOneLine_append.trans ((and_iff_left (by decide)).trans ?_)
      exact isOneLine_append.trans (and_iff_right (by decide))

/-- Whether an item takes one line at most. -/
def Item.IsOneLine : Item → Prop
  | .line _ st => Text.IsOneLine st.words
  | .enter _ | .blank => True

theorem Item.isOneLine_of_mem_ofText {level : Nat} {text : String} {i : Item}
    (h : i ∈ ofText level text) : i.IsOneLine := by
  obtain ⟨line, hline, rfl⟩ := List.mem_map.mp h
  split
  · trivial
  · exact isOneLine_of_mem_lines hline

/-- What a bubble of an unbroken scene writes as it is takes one line for each item. -/
theorem Scene.IsUnbroken.isOneLine_of_mem_parts {s : Scene} (hs : s.IsUnbroken) {b : Bubble}
    (hb : b ∈ s.bubbles) {level : Nat} {i : Item} (h : .item i ∈ b.parts level) : i.IsOneLine := by
  have htexts := hs b hb
  unfold Bubble.lineTexts at htexts
  unfold Bubble.parts at h
  cases hkind : b.kind with
  | start => simp [hkind] at h
  | story text | action text =>
      have hmem : i ∈ Item.ofText level text := by simpa [hkind] using h
      exact Item.isOneLine_of_mem_ofText hmem
  | choice options =>
      simp only [hkind, List.mem_cons, List.mem_flatMap, Part.item.injEq] at h
      rcases h with rfl | ⟨o, ho, hpart⟩
      · exact List.not_mem_nil
      · obtain rfl : i = .line (level + 1) (.option o.text) := by
          simpa [ChoiceOption.parts] using hpart
        exact htexts o.text (by simpa [hkind] using .inr ⟨o, ho, rfl⟩)
  | condition expression =>
      simp only [hkind, List.mem_cons, Part.item.injEq, reduceCtorEq, List.not_mem_nil, false_or,
        or_false] at h
      rcases h with rfl | rfl
      · exact htexts expression (by simp [hkind])
      · exact List.not_mem_nil

/-- Each item that a step writes takes one line, and so do those of the parts in front. -/
theorem Step.isOneLine {p : LabelPolicy} (hs : p.scene.IsUnbroken) {g g₁ : Progress} {part : Part}
    {items : List Item} {front : List Part} (h : Step p g part items g₁ front)
    (hpart : ∀ i, part = .item i → i.IsOneLine) :
    (∀ i ∈ items, i.IsOneLine) ∧ ∀ i, .item i ∈ front → i.IsOneLine := by
  cases h with
  | item => exact ⟨by simpa using hpart, by simp⟩
  | finish | entryFinish => exact ⟨List.forall_mem_singleton.mpr List.not_mem_nil, by simp⟩
  | @jump slot level c hlink hlabel =>
      exact ⟨List.forall_mem_singleton.mpr (p.isOneLine_labelName hs c.target), by simp⟩
  | strand | skip | unknown | inline | entry => exact ⟨by simp, by simp⟩
  | @take level u b hnew hbubble =>
      refine ⟨?_, fun i ↦ hs.isOneLine_of_mem_parts (Scene.mem_of_bubble? hbubble)⟩
      unfold LabelPolicy.heading
      split
      · simpa [Item.IsOneLine, Statement.words] using p.isOneLine_labelName hs u
      · simp [Item.IsOneLine]

/-- In an unbroken scene each item of the code takes one line. -/
theorem Emits.isOneLine {p : LabelPolicy} (hs : p.scene.IsUnbroken) {g g' : Progress}
    {parts : List Part} {code : List Item} (h : Emits p g parts code g')
    (hparts : ∀ i, .item i ∈ parts → i.IsOneLine) : ∀ i ∈ code, i.IsOneLine := by
  induction h with
  | done g => simp
  | @step g g₁ g' part front parts items code first rest ih =>
      obtain ⟨hitems, hfront⟩ := first.isOneLine hs fun i hi ↦ hparts i (hi ▸ List.mem_cons_self)
      have hrest := ih fun i hi ↦
        (List.mem_append.mp hi).elim (hfront i) fun hi ↦ hparts i (List.mem_cons_of_mem _ hi)
      exact fun i hi ↦ (List.mem_append.mp hi).elim (hitems i) (hrest i)

/-! ## Nested texts -/

namespace Item

variable {unit : String} (hunit : Text.IsOneLine unit) {level : Nat}

include hunit

theorem hasMargin_render {i : Item} (hline : i.IsOneLine) (hlevel : ∀ l ∈ i.level?, level ≤ l) :
    HasMargin (margin unit level) (i.render unit) := by
  cases i with
  | enter u => exact .empty _
  | blank => exact .feed _
  | line l st =>
      have hmargin := (prefix_margin unit (hlevel l rfl)).trans (List.prefix_append _ st.render.toList)
      refine .line (isOneLine_append.mpr ⟨isOneLine_margin hunit l, ?_⟩) ?_
      · exact Statement.isOneLine_render.mpr hline
      · rwa [String.toList_append]

/-- The text of a block has the margin of its level. -/
theorem hasMargin_renderAll {items : List Item} (hlines : ∀ i ∈ items, i.IsOneLine)
    (hblock : IsBlock level items) : HasMargin (margin unit level) (renderAll unit items) := by
  induction items with
  | nil => exact .empty _
  | cons i items ih =>
      obtain ⟨hline, hlines⟩ := List.forall_mem_cons.mp hlines
      obtain ⟨hlevel, hblock⟩ := isBlock_cons.mp hblock
      rw [renderAll_cons]
      exact (hasMargin_render hunit hline hlevel).append (ih hlines hblock)

end Item

/-- `OffersText unit level options text`: each option has a line of its own with the margin of one level
more than its choice, and behind it lines with one more. -/
inductive OffersText (unit : String) (level : Nat) : List ChoiceOption → String → Prop
  | nil : OffersText unit level [] ""
  | cons {o : ChoiceOption} {options : List ChoiceOption} {block rest : String}
      (hline : IsOneLine (Item.margin unit (level + 1) ++ ("#" ++ o.text)))
      (hblock : HasMargin (Item.margin unit (level + 2)) block) (hrest : OffersText unit level options rest) :
      OffersText unit level (o :: options)
        (Item.margin unit (level + 1) ++ ("#" ++ o.text) ++ "\n" ++ (block ++ rest))

/-- `NestsText unit level kind text`: the text of a bubble of a kind, with all that follows it in line, has
the margins of a level and of those below it. -/
inductive NestsText (unit : String) (level : Nat) : BubbleKind → String → Prop
  | start {text : String} (htext : HasMargin (Item.margin unit level) text) :
      NestsText unit level .start text
  | story {text rest : String} (hrest : HasMargin (Item.margin unit level) rest) :
      NestsText unit level (.story text) (Item.renderAll unit (Item.ofText level text) ++ rest)
  | action {script rest : String} (hrest : HasMargin (Item.margin unit level) rest) :
      NestsText unit level (.action script) (Item.renderAll unit (Item.ofText level script) ++ rest)
  | choice {options : List ChoiceOption} {answers : String}
      (hanswers : OffersText unit level options answers) :
      NestsText unit level (.choice options) (Item.margin unit level ++ "*choice" ++ "\n" ++ answers)
  | condition {expression holds fails : String}
      (hline : IsOneLine (Item.margin unit level ++ ("*if(" ++ expression ++ ")")))
      (hholds : HasMargin (Item.margin unit (level + 1)) holds)
      (hfails : HasMargin (Item.margin unit (level + 1)) fails) :
      NestsText unit level (.condition expression)
        (Item.margin unit level ++ ("*if(" ++ expression ++ ")") ++ "\n" ++
          (holds ++ (Item.margin unit level ++ "*else" ++ "\n" ++ fails)))

section

variable {unit : String} (hunit : IsOneLine unit) {level : Nat} {items : List Item}
  (hlines : ∀ i ∈ items, i.IsOneLine)

include hunit hlines

theorem Offers.renderAll {options : List ChoiceOption} (h : Offers level options items) :
    OffersText unit level options (Item.renderAll unit items) := by
  induction h with
  | nil => exact .nil
  | @cons o options block rest hblock hrest ih =>
      obtain ⟨hline, hlines⟩ := List.forall_mem_cons.mp hlines
      obtain ⟨hlines, hlines'⟩ := List.forall_mem_append.mp hlines
      rw [List.cons_append, Item.renderAll_cons, Item.renderAll_append]
      refine .cons ?_ (Item.hasMargin_renderAll hunit hlines hblock) (ih hlines')
      exact isOneLine_append.mpr ⟨Item.isOneLine_margin hunit _, Statement.isOneLine_render.mpr hline⟩

theorem Nests.renderAll {kind : BubbleKind} (h : Nests level kind items) :
    NestsText unit level kind (Item.renderAll unit items) := by
  cases h with
  | start hitems => exact .start (Item.hasMargin_renderAll hunit hlines hitems)
  | story hrest =>
      rw [Item.renderAll_append]
      exact .story (Item.hasMargin_renderAll hunit (List.forall_mem_append.mp hlines).2 hrest)
  | action hrest =>
      rw [Item.renderAll_append]
      exact .action (Item.hasMargin_renderAll hunit (List.forall_mem_append.mp hlines).2 hrest)
  | choice hanswers =>
      rw [Item.renderAll_cons]
      exact .choice (hanswers.renderAll hunit (List.forall_mem_cons.mp hlines).2)
  | condition hholds hfails =>
      obtain ⟨hline, hlines⟩ := List.forall_mem_cons.mp hlines
      obtain ⟨hlines, hlines'⟩ := List.forall_mem_append.mp hlines
      rw [List.cons_append, Item.renderAll_cons, Item.renderAll_append, Item.renderAll_cons]
      refine .condition ?_ (Item.hasMargin_renderAll hunit hlines hholds)
        (Item.hasMargin_renderAll hunit (List.forall_mem_cons.mp hlines').2 hfails)
      exact isOneLine_append.mpr ⟨Item.isOneLine_margin hunit _, Statement.isOneLine_render.mpr hline⟩

end

namespace LabelPolicy

/-- What a bubble writes where it has no label is nested as its kind asks for, whatever the texts of the
scene are. In an unbroken scene, and with any indent, the text shows it: it is made of whole lines that are
empty or have the margin of the level, the options of a choice and the branches of a condition stand on
lines of their own, and what is behind them has a wider margin. -/
theorem nests_of_emitBubble {p : LabelPolicy} (hwf : p.scene.WellFormed) {limit room level : Nat} {u : Uid}
    {b : Bubble} (hbubble : p.scene.bubble? u = some b) (hlabel : p.needsLabel u = false)
    (hstart : b.isStart → level = 0) {g g' : Progress} (hnew : u ∉ g.emitted) {code : List Item}
    (h : (p.emitBubble limit room level u).run g = .ok (code, g')) :
    (∃ items, code = .enter u :: items ∧ IsBlock level items ∧ Nests level b.kind items) ∧
      (p.scene.IsUnbroken → ∀ indent : Indent,
        HasMargin (Item.margin indent.unit level) (Item.renderAll indent.unit code) ∧
          NestsText indent.unit level b.kind (Item.renderAll indent.unit code)) := by
  have hlabel : ¬ p.needsLabel u := by simp [hlabel]
  have hemits : Emits p g [.bubble level u] code g' := by
    simpa using Emits.sound_emitBubble p limit room h (.done g')
  obtain ⟨-, items, rfl, hitems⟩ := (hemits.of_turn hbubble).resolve_left fun h ↦ hnew h.1
  rw [heading, if_neg hlabel, List.singleton_append] at hemits ⊢
  rw [levelOf_of_not_needsLabel hlabel, List.append_nil] at hitems
  have hnests : Nests level b.kind items := hitems.nests hwf hstart
  have hblock : IsBlock level (.enter u :: items) := by
    by_cases hb : b.isStart
    · rw [hstart hb]
      exact isBlock_zero _
    · have hdeep : Part.IsDeep p level (.bubble level u) :=
        ⟨Nat.le_refl level, hlabel, b, hbubble, by simpa using hb⟩
      exact hemits.isBlock hwf (List.forall_mem_singleton.mpr hdeep)
  refine ⟨⟨items, rfl, (isBlock_cons.mp hblock).2, hnests⟩, ?_⟩
  intro hs indent
  have hlines := hemits.isOneLine hs (by simp)
  refine ⟨Item.hasMargin_renderAll indent.isOneLine_unit hlines hblock, ?_⟩
  rw [Item.renderAll_cons, Item.render, String.empty_append]
  exact hnests.renderAll indent.isOneLine_unit (List.forall_mem_cons.mp hlines).2

end LabelPolicy

/-- A condition in the branch of another one. -/
def Scene.innerGate (expression : String) : Scene where
  name := "gates"
  bubbles :=
    [.create ⟨0⟩ .start, .create ⟨1⟩ (.condition "open"), .create ⟨2⟩ (.condition expression)]
  connections :=
    [⟨⟨0⟩, ⟨⟨0⟩, .next⟩, ⟨1⟩, .south, .north⟩, ⟨⟨1⟩, ⟨⟨1⟩, .whenTrue⟩, ⟨2⟩, .south, .north⟩]

namespace LabelPolicy

/-- Along the sequence of the scene, with no label forced. -/
def innerGate (expression : String) : LabelPolicy :=
  create (Scene.innerGate expression) [⟨0⟩, ⟨1⟩, ⟨2⟩]

theorem run_emitBubble_innerGate (expression : String) :
    ((innerGate expression).emitBubble 3 1 1 ⟨2⟩).run ⟨[⟨1⟩, ⟨0⟩], []⟩ =
      .ok ([.enter ⟨2⟩, .line 1 (.branch expression), .line 2 .finish, .line 1 .otherwise,
        .line 2 .finish], ⟨[⟨2⟩, ⟨1⟩, ⟨0⟩], []⟩) := rfl

theorem nests_innerGate :
    (Scene.innerGate "gold > 3").WellFormed ∧ (Scene.innerGate "gold > 3").IsUnbroken ∧
      ∃ code g', ((innerGate "gold > 3").emitBubble 3 1 1 ⟨2⟩).run ⟨[⟨1⟩, ⟨0⟩], []⟩ = .ok (code, g') ∧
        ∀ indent : Indent,
          HasMargin (Item.margin indent.unit 1) (Item.renderAll indent.unit code) ∧
            NestsText indent.unit 1 (.condition "gold > 3") (Item.renderAll indent.unit code) := by
  have hwf : (Scene.innerGate "gold > 3").WellFormed := by decide
  have hs : (Scene.innerGate "gold > 3").IsUnbroken := by decide
  have hrun := run_emitBubble_innerGate "gold > 3"
  refine ⟨hwf, hs, _, _, hrun, ?_⟩
  exact (nests_of_emitBubble (p := innerGate "gold > 3") hwf rfl rfl (by decide) (by decide) hrun).2 hs

/-- With a line feed in the expression, the rest of it stands in front of the margin. -/
theorem not_forall_hasMargin :
    ¬ ∀ (p : LabelPolicy) (limit room level : Nat) (u : Uid) (b : Bubble) (g g' : Progress)
        (code : List Item) (indent : Indent),
      p.scene.WellFormed → p.scene.bubble? u = some b → p.needsLabel u = false →
        (b.isStart → level = 0) → u ∉ g.emitted →
        (p.emitBubble limit room level u).run g = .ok (code, g') →
          HasMargin (Item.margin indent.unit level) (Item.renderAll indent.unit code) := by
  intro h
  have hmargin := h (innerGate "gold > 3\nand key") 3 1 1 ⟨2⟩ _ ⟨[⟨1⟩, ⟨0⟩], []⟩ _ _ (.spaces 4)
    (by decide) rfl rfl (by decide) (by decide) (run_emitBubble_innerGate _)
  have htext : (Item.renderAll (Indent.spaces 4).unit
      [.enter ⟨2⟩, .line 1 (.branch "gold > 3\nand key"), .line 2 .finish, .line 1 .otherwise,
        .line 2 .finish]).toList =
      "    *if(gold > 3".toList ++
        '\n' :: "and key)\n        *finish\n    *else\n        *finish\n".toList := by decide
  have hafter := hmargin.of_feed htext
  revert hafter
  decide

end LabelPolicy

end StoryGraph
