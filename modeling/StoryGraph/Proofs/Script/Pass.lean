import StoryGraph.Proofs.Scene.Outlet
import StoryGraph.Proofs.Script.Part

/-!
# What a pass does to its progress

A pass only ever adds to what it has emitted and to what it found stranded. The statements here say
where each addition comes from, and what must have been added once the parts are done. `settled` is the
one that matters most: the target of a link that was followed has been emitted, and it was stranded if
that was so before.
-/

namespace StoryGraph

/-- The slot that a part follows, with a jump where the target needs a label. -/
def Part.slot? : Part → Option Slot
  | .slot place _ => some place
  | .item _ | .entry _ _ | .bubble _ _ => none

/-- The slots that lists of parts follow, with a jump where the target needs a label. -/
def slotsOf (parts : List Part) : List Slot := parts.filterMap Part.slot?

@[simp] theorem slotsOf_append (parts others : List Part) :
    slotsOf (parts ++ others) = slotsOf parts ++ slotsOf others := List.filterMap_append

@[simp] theorem slotsOf_items (items : List Item) : slotsOf (items.map .item) = [] := by
  simp [slotsOf, List.filterMap_map, Function.comp_def, Part.slot?]

@[simp] theorem slotsOf_roots (us : List Uid) : slotsOf (us.map (.bubble 0)) = [] := by
  simp [slotsOf, List.filterMap_map, Function.comp_def, Part.slot?]

theorem slotsOf_options (options : List ChoiceOption) (level : Nat) :
    slotsOf (options.flatMap (·.parts level)) = options.map fun o ↦ ⟨o.uid, .next⟩ := by
  induction options with
  | nil => rfl
  | cons o options ih =>
      rw [List.flatMap_cons, slotsOf_append, ih]
      rfl

/-- A bubble follows its outlets, one after the other. -/
@[simp] theorem slotsOf_parts (b : Bubble) (level : Nat) : slotsOf (b.parts level) = b.outlets := by
  unfold Bubble.parts Bubble.outlets Bubble.slots Bubble.isStart Bubble.isChoice Bubble.type
  cases hkind : b.kind with
  | start => rfl
  | story text | action text =>
      simp [BubbleKind.type, Bubble.exits, BubbleKind.exits, hkind]
      rfl
  | choice options =>
      have hcons : slotsOf (.item (.line level .choice) :: options.flatMap (·.parts level)) =
          slotsOf (options.flatMap (·.parts level)) := rfl
      simp [BubbleKind.type, Bubble.optionUids, Bubble.options, BubbleKind.options, hkind, hcons,
        slotsOf_options]
  | condition expression =>
      simp [BubbleKind.type, Bubble.exits, BubbleKind.exits, hkind]
      rfl

/-- Whether parts follow nothing but outlets of the scene. -/
def Sourced (s : Scene) (parts : List Part) : Prop := ∀ slot ∈ slotsOf parts, s.IsOutlet slot

theorem sourced_roots (s : Scene) (us : List Uid) : Sourced s (us.map (.bubble 0)) := by
  intro slot hslot
  simp at hslot

/-- The link of a slot among the parts is that of an outlet. -/
theorem Sourced.endsOutlet {s : Scene} {slot : Slot} {level : Nat} {parts : List Part}
    (h : Sourced s (.slot slot level :: parts)) {c : Connection} (hlink : s.link? slot = some c) :
    s.EndsOutlet c.target := by
  refine ⟨c, Scene.mem_connections_of_link? hlink, rfl, ?_⟩
  rw [Scene.slot_of_link? hlink]
  exact h slot List.mem_cons_self

/-- Whether any link of a start among the parts is that of one that has been emitted. -/
def Entered (s : Scene) (emitted : List Uid) (parts : List Part) : Prop :=
  ∀ slot level, .entry slot level ∈ parts →
    ∃ start ∈ s.bubbles, start.isStart ∧ start.uid ∈ emitted ∧ slot = ⟨start.uid, .next⟩

/-- Why a bubble is emitted that nothing asked for: it needs no label and the link of an outlet ends
there, or the link of a start does that has been emitted. -/
def Reached (p : LabelPolicy) (emitted : List Uid) (u : Uid) : Prop :=
  (¬ p.needsLabel u ∧ p.scene.EndsOutlet u) ∨
    ∃ start ∈ p.scene.bubbles, start.isStart ∧ start.uid ∈ emitted ∧
      ∃ c, p.scene.link? ⟨start.uid, .next⟩ = some c ∧ c.target = u

/-! ## One step -/

namespace Step

variable {p : LabelPolicy} {g g₁ g' : Progress} {part : Part} {front parts : List Part}
  {items : List Item}

theorem emitted_suffix (h : Step p g part items g₁ front) : g.emitted <:+ g₁.emitted := by
  cases h with
  | unknown | take => exact List.suffix_cons ..
  | _ => exact List.suffix_rfl

theorem stranded_suffix (h : Step p g part items g₁ front) : g.stranded <:+ g₁.stranded := by
  cases h with
  | strand => exact List.suffix_cons ..
  | _ => exact List.suffix_rfl

/-- What a step adds to the bubbles emitted is the bubble that it is about. -/
theorem emitted_eq (h : Step p g part items g₁ front) :
    g₁.emitted = g.emitted ∨
      ∃ level u, part = .bubble level u ∧ u ∉ g.emitted ∧ g₁.emitted = u :: g.emitted := by
  cases h with
  | @unknown level u hnew => exact .inr ⟨level, u, rfl, hnew, rfl⟩
  | @take level u _ hnew => exact .inr ⟨level, u, rfl, hnew, rfl⟩
  | _ => exact .inl rfl

/-- What has been emitted is not emitted again. -/
theorem nodup_emitted (h : Step p g part items g₁ front) (hnodup : g.emitted.Nodup) :
    g₁.emitted.Nodup := by
  rcases h.emitted_eq with heq | ⟨_, u, -, hnew, heq⟩
  · rwa [heq]
  · rw [heq]
    exact List.nodup_cons.mpr ⟨hnew, hnodup⟩

/-- The slots that come to the front are outlets of the bubble that the step is about. -/
theorem mem_outlets_of_front (h : Step p g part items g₁ front) {slot : Slot}
    (hslot : slot ∈ slotsOf front) :
    ∃ level u, part = .bubble level u ∧ slot ∈ p.scene.outlets u := by
  cases h with
  | @take level u b hnew hbubble =>
      rw [slotsOf_parts] at hslot
      exact ⟨level, u, rfl, by rwa [Scene.outlets_of_bubble? hbubble]⟩
  | inline | entry => simp [slotsOf, Part.slot?] at hslot
  | _ => simp [slotsOf] at hslot

theorem sourced (h : Step p g part items g₁ front) (hslots : Sourced p.scene (part :: parts)) :
    Sourced p.scene (front ++ parts) := by
  intro slot hslot
  rcases List.mem_append.mp (slotsOf_append .. ▸ hslot) with hslot | hslot
  · obtain ⟨_, u, -, hu⟩ := h.mem_outlets_of_front hslot
    unfold Scene.outlets at hu
    split at hu
    · simp at hu
    · rename_i b hb
      exact ⟨b, Scene.mem_of_bubble? hb, hu⟩
  · refine hslots slot ?_
    rw [slotsOf, List.filterMap_cons]
    split
    · exact hslot
    · exact List.mem_cons_of_mem _ hslot

/-- A link to a target without a label ends in a target that is stranded, or in one that comes next. -/
theorem of_slot? (h : Step p g part items g₁ front) {slot : Slot} (hslot : part.slot? = some slot)
    {c : Connection} (hlink : p.scene.link? slot = some c) (hlabel : ¬ p.needsLabel c.target) :
    c.target ∈ g.emitted ∧ c.target ∈ g₁.stranded ∨
      c.target ∉ g.emitted ∧ ∃ level, front = [.bubble level c.target] := by
  cases h with
  | finish hlink' =>
      obtain rfl := Option.some.inj hslot
      simp [hlink] at hlink'
  | jump hlink' hlabel' =>
      obtain rfl := Option.some.inj hslot
      obtain rfl := Option.some.inj (hlink.symm.trans hlink')
      exact absurd hlabel' hlabel
  | strand hlink' _ hmem =>
      obtain rfl := Option.some.inj hslot
      obtain rfl := Option.some.inj (hlink.symm.trans hlink')
      exact .inl ⟨hmem, List.mem_cons_self⟩
  | @inline _ level _ hlink' _ hnew =>
      obtain rfl := Option.some.inj hslot
      obtain rfl := Option.some.inj (hlink.symm.trans hlink')
      exact .inr ⟨hnew, level, rfl⟩
  | _ => simp [Part.slot?] at hslot

/-- Any link of a start among the parts stays that of one that has been emitted. -/
theorem entered (h : Step p g part items g₁ front) {emitted : List Uid}
    (hentries : Entered p.scene emitted (part :: parts)) (hemitted : ∀ u ∈ g₁.emitted, u ∈ emitted) :
    Entered p.scene emitted (front ++ parts) := by
  intro slot level hentry
  rcases List.mem_append.mp hentry with hentry | hentry
  · cases h with
    | take hnew hbubble =>
        obtain ⟨hstart, heq, -⟩ := isOf_of_mem_parts hentry
        refine ⟨_, Scene.mem_of_bubble? hbubble, hstart, ?_, heq⟩
        rw [Scene.uid_of_bubble? hbubble]
        exact hemitted _ List.mem_cons_self
    | _ => simp at hentry
  · exact hentries slot level (List.mem_cons_of_mem _ hentry)

/-- A bubble that comes to the front has been reached. -/
theorem reached_of_mem_front (h : Step p g part items g₁ front) {emitted : List Uid}
    (hslots : Sourced p.scene (part :: parts)) (hentries : Entered p.scene emitted (part :: parts))
    {level : Nat} {u : Uid} (hfront : .bubble level u ∈ front) : Reached p emitted u := by
  cases h with
  | take => exact absurd (isOf_of_mem_parts hfront) id
  | inline hlink hlabel =>
      obtain ⟨-, rfl⟩ := Part.bubble.inj (List.mem_singleton.mp hfront)
      exact .inl ⟨hlabel, hslots.endsOutlet hlink⟩
  | entry hlink =>
      obtain ⟨-, rfl⟩ := Part.bubble.inj (List.mem_singleton.mp hfront)
      obtain ⟨start, hmem, hstart, hstarted, rfl⟩ := hentries _ _ List.mem_cons_self
      exact .inr ⟨start, hmem, hstart, hstarted, _, hlink, rfl⟩
  | _ => simp at hfront

end Step

/-! ## A whole pass -/

namespace Emits

variable {p : LabelPolicy} {g g' : Progress} {parts : List Part} {code : List Item}

/-- The parts can be emitted in two goes. -/
theorem split (first : List Part) {second : List Part} (h : Emits p g (first ++ second) code g') :
    ∃ code₁ g₁ code₂, code = code₁ ++ code₂ ∧ Emits p g first code₁ g₁ ∧
      Emits p g₁ second code₂ g' := by
  generalize hparts : first ++ second = parts at h
  induction h generalizing first with
  | done g =>
      obtain ⟨rfl, rfl⟩ := List.append_eq_nil_iff.mp hparts
      exact ⟨[], g, [], rfl, .done g, .done g⟩
  | @step g g₁ g' part front parts items code hstep rest ih =>
      rcases List.append_eq_cons_iff.mp hparts with ⟨rfl, rfl⟩ | ⟨first, rfl, rfl⟩
      · exact ⟨[], g, _, rfl, .done g, .step hstep rest⟩
      · obtain ⟨code₁, g₂, code₂, rfl, h₁, h₂⟩ := ih (front ++ first) (List.append_assoc ..)
        exact ⟨items ++ code₁, g₂, code₂, by rw [List.append_assoc], .step hstep h₁, h₂⟩

theorem append {first second : List Part} {code₁ code₂ : List Item} {g₁ : Progress}
    (h₁ : Emits p g first code₁ g₁) (h₂ : Emits p g₁ second code₂ g') :
    Emits p g (first ++ second) (code₁ ++ code₂) g' := by
  induction h₁ with
  | done g => exact h₂
  | step first rest ih =>
      have hrest := ih h₂
      rw [List.append_assoc] at hrest ⊢
      exact .step first hrest

theorem of_item {i : Item} (h : Emits p g (.item i :: parts) code g') :
    ∃ rest, code = i :: rest ∧ Emits p g parts rest g' := by
  cases h with
  | step first rest =>
      cases first
      exact ⟨_, rfl, rest⟩

/-- Items that are written as they are come first. -/
theorem of_map_item {items : List Item} (h : Emits p g (items.map .item ++ parts) code g') :
    ∃ rest, code = items ++ rest ∧ Emits p g parts rest g' := by
  induction items generalizing code with
  | nil => exact ⟨code, rfl, h⟩
  | cons i items ih =>
      obtain ⟨others, rfl, hothers⟩ := h.of_item
      obtain ⟨rest, rfl, hrest⟩ := ih hothers
      exact ⟨rest, rfl, hrest⟩

/-- When the turn of a bubble comes, it has been emitted, or it writes its heading and its parts. -/
theorem of_turn {level : Nat} {u : Uid} {b : Bubble} (h : Emits p g (.bubble level u :: parts) code g')
    (hb : p.scene.bubble? u = some b) :
    u ∈ g.emitted ∧ Emits p g parts code g' ∨
      u ∉ g.emitted ∧ ∃ body, code = p.heading u ++ body ∧
        Emits p ⟨u :: g.emitted, g.stranded⟩ (b.parts (p.levelOf level u) ++ parts) body g' := by
  cases h with
  | step first rest =>
      cases first with
      | skip hmem => exact .inl ⟨hmem, rest⟩
      | unknown _ hbubble => simp [hb] at hbubble
      | take hnew hbubble =>
          obtain rfl := Option.some.inj (hb.symm.trans hbubble)
          exact .inr ⟨hnew, _, rfl, rest⟩

theorem emitted_suffix (h : Emits p g parts code g') : g.emitted <:+ g'.emitted := by
  induction h with
  | done g => exact List.suffix_rfl
  | step first rest ih => exact first.emitted_suffix.trans ih

theorem stranded_suffix (h : Emits p g parts code g') : g.stranded <:+ g'.stranded := by
  induction h with
  | done g => exact List.suffix_rfl
  | step first rest ih => exact first.stranded_suffix.trans ih

/-- Where nothing is stranded in the end, nothing was before. -/
theorem stranded_eq_nil (h : Emits p g parts code g') (hstranded : g'.stranded = []) :
    g.stranded = [] := List.suffix_nil.mp (hstranded ▸ h.stranded_suffix)

/-- No bubble is emitted twice. -/
theorem nodup_emitted (h : Emits p g parts code g') (hnodup : g.emitted.Nodup) :
    g'.emitted.Nodup := by
  induction h with
  | done g => exact hnodup
  | step first rest ih => exact ih (first.nodup_emitted hnodup)

/-- Every bubble among the parts is emitted. -/
theorem mem_emitted (h : Emits p g parts code g') {level : Nat} {u : Uid}
    (hu : .bubble level u ∈ parts) : u ∈ g'.emitted := by
  induction h with
  | done g => simp at hu
  | step first rest ih =>
      rcases List.mem_cons.mp hu with rfl | hu
      · refine rest.emitted_suffix.mem ?_
        cases first with
        | skip hmem => exact hmem
        | unknown | take => exact List.mem_cons_self
      · exact ih (List.mem_append_right _ hu)

/-- The slots that are followed from `g` to `g'`: those of the parts, and the outlets of the bubbles that
are emitted on the way. -/
def Follows (p : LabelPolicy) (g : Progress) (parts : List Part) (g' : Progress) (slot : Slot) :
    Prop :=
  slot ∈ slotsOf parts ∨ ∃ u ∈ g'.emitted, u ∉ g.emitted ∧ slot ∈ p.scene.outlets u

/-- A slot that is followed is followed in the first step or after it. -/
theorem Follows.step {g₁ : Progress} {part : Part} {front : List Part} {items : List Item}
    {slot : Slot} (hslot : Follows p g (part :: parts) g' slot)
    (first : Step p g part items g₁ front) :
    part.slot? = some slot ∨ Follows p g₁ (front ++ parts) g' slot := by
  rcases hslot with hslot | ⟨u, hu, hg, hslot⟩
  · rw [slotsOf, List.filterMap_cons] at hslot
    split at hslot
    · exact .inr (.inl (by rw [slotsOf_append]; exact List.mem_append_right _ hslot))
    · rename_i heq
      rcases List.mem_cons.mp hslot with rfl | hslot
      · exact .inl heq
      · exact .inr (.inl (by rw [slotsOf_append]; exact List.mem_append_right _ hslot))
  · by_cases hg₁ : u ∈ g₁.emitted
    · cases first with
      | @take level v b hnew hbubble =>
          obtain rfl := (List.mem_cons.mp hg₁).resolve_right hg
          rw [Scene.outlets_of_bubble? hbubble] at hslot
          refine .inr (.inl ?_)
          rw [slotsOf_append, slotsOf_parts]
          exact List.mem_append_left _ hslot
      | @unknown level v hnew hbubble =>
          obtain rfl := (List.mem_cons.mp hg₁).resolve_right hg
          simp [Scene.outlets, hbubble] at hslot
      | _ => exact absurd hg₁ hg
    · exact .inr (.inr ⟨u, hu, hg₁, hslot⟩)

/-- The target of a link that was followed has been emitted. If it was emitted before, and needs no
label, it was found stranded. -/
theorem settled (h : Emits p g parts code g') {slot : Slot} (hslot : Follows p g parts g' slot)
    {c : Connection} (hlink : p.scene.link? slot = some c) (hlabel : ¬ p.needsLabel c.target) :
    c.target ∈ g'.emitted ∧ (c.target ∈ g.emitted → c.target ∈ g'.stranded) := by
  induction h with
  | done g =>
      rcases hslot with hslot | ⟨u, hu, hg, -⟩
      · simp [slotsOf] at hslot
      · exact absurd hu hg
  | step first rest ih =>
      rcases hslot.step first with hpart | hslot
      · rcases first.of_slot? hpart hlink hlabel with ⟨hmem, hstranded⟩ | ⟨hnew, level, rfl⟩
        · exact ⟨(first.emitted_suffix.trans rest.emitted_suffix).mem hmem,
            fun _ ↦ rest.stranded_suffix.mem hstranded⟩
        · exact ⟨rest.mem_emitted List.mem_cons_self, fun hmem ↦ absurd hmem hnew⟩
      · obtain ⟨hemitted, hstranded⟩ := ih hslot
        exact ⟨hemitted, fun hmem ↦ hstranded (first.emitted_suffix.mem hmem)⟩

/-- A bubble that is stranded is one without a label at which the link of an outlet ends. -/
theorem of_mem_stranded (h : Emits p g parts code g') (hslots : Sourced p.scene parts) {u : Uid}
    (hu : u ∈ g'.stranded) : u ∈ g.stranded ∨ ¬ p.needsLabel u ∧ p.scene.EndsOutlet u := by
  induction h with
  | done g => exact .inl hu
  | step first rest ih =>
      rcases ih (first.sourced hslots) hu with hu | hu
      · cases first with
        | strand hlink hlabel hmem =>
            rcases List.mem_cons.mp hu with rfl | hu
            · exact .inr ⟨hlabel, hslots.endsOutlet hlink⟩
            · exact .inl hu
        | _ => exact .inl hu
      · exact .inr hu

/-! ## The link of a start -/

theorem mem_emitted_of_entry (h : Emits p g parts code g') {slot : Slot} {level : Nat}
    (hentry : .entry slot level ∈ parts) {c : Connection} (hlink : p.scene.link? slot = some c) :
    c.target ∈ g'.emitted := by
  induction h with
  | done g => simp at hentry
  | step first rest ih =>
      rcases List.mem_cons.mp hentry with rfl | hentry
      · cases first with
        | entryFinish hlink' => simp [hlink] at hlink'
        | entry hlink' =>
            obtain rfl := Option.some.inj (hlink.symm.trans hlink')
            exact rest.mem_emitted List.mem_cons_self
      · exact ih (List.mem_append_right _ hentry)

/-- Where a start has been emitted, the target of its link has been. -/
theorem start_settled (h : Emits p g parts code g') {u : Uid} {b : Bubble}
    (hb : p.scene.bubble? u = some b) (hstart : b.isStart) (hu : u ∈ g'.emitted)
    (hg : u ∉ g.emitted) {c : Connection} (hlink : p.scene.link? ⟨u, .next⟩ = some c) :
    c.target ∈ g'.emitted := by
  induction h with
  | done g => exact absurd hu hg
  | @step g g₁ g' part front parts items code first rest ih =>
      by_cases hg₁ : u ∈ g₁.emitted
      · rcases first.emitted_eq with heq | ⟨level, v, rfl, -, heq⟩
        · exact absurd (heq ▸ hg₁) hg
        · obtain rfl := (List.mem_cons.mp (heq ▸ hg₁)).resolve_right hg
          cases first with
          | skip hmem => exact absurd hmem hg
          | unknown _ hbubble => simp [hb] at hbubble
          | take _ hbubble =>
              obtain rfl := Option.some.inj (hb.symm.trans hbubble)
              rw [Bubble.parts_of_isStart hstart, Scene.uid_of_bubble? hb] at rest
              exact rest.mem_emitted_of_entry List.mem_cons_self hlink
      · exact ih hu hg₁

/-- Why a bubble has been emitted: it was so before, it is among the parts, or it was reached. -/
theorem of_mem_emitted (h : Emits p g parts code g') (hslots : Sourced p.scene parts)
    (hentries : Entered p.scene g'.emitted parts) {u : Uid} (hu : u ∈ g'.emitted) :
    u ∈ g.emitted ∨ (∃ level, .bubble level u ∈ parts) ∨ Reached p g'.emitted u := by
  induction h with
  | done g => exact .inl hu
  | step first rest ih =>
      have hfront := first.entered hentries fun _ ↦ rest.emitted_suffix.mem
      rcases ih (first.sourced hslots) hfront hu with hg₁ | ⟨level, hroot⟩ | hreached
      · rcases first.emitted_eq with heq | ⟨level, v, rfl, -, heq⟩
        · exact .inl (heq ▸ hg₁)
        · rcases List.mem_cons.mp (heq ▸ hg₁) with rfl | hg
          · exact .inr (.inl ⟨level, List.mem_cons_self⟩)
          · exact .inl hg
      · rcases List.mem_append.mp hroot with hroot | hroot
        · exact .inr (.inr (first.reached_of_mem_front hslots hentries hroot))
        · exact .inr (.inl ⟨level, List.mem_cons_of_mem _ hroot⟩)
      · exact .inr (.inr hreached)

/-- Where nothing was emitted before, a bubble has been asked for, or it was reached. -/
theorem of_mem_emitted_roots {us : List Uid}
    (h : Emits p ⟨[], []⟩ (us.map (.bubble 0)) code g') {u : Uid} (hu : u ∈ g'.emitted) :
    u ∈ us ∨ Reached p g'.emitted u := by
  have hentries : Entered p.scene g'.emitted (us.map (.bubble 0)) := by simp [Entered]
  rcases h.of_mem_emitted (sourced_roots _ _) hentries hu with hnil | ⟨level, hroot⟩ | hreached
  · simp at hnil
  · obtain ⟨v, hv, heq⟩ := List.mem_map.mp hroot
    obtain ⟨-, rfl⟩ := Part.bubble.inj heq
    exact .inl hv
  · exact .inr hreached

end Emits

end StoryGraph
