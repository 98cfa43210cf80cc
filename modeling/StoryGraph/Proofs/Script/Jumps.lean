import StoryGraph.Proofs.Scene.Outlet
import StoryGraph.Proofs.Script.Depth
import StoryGraph.Proofs.Script.Place

/-!
# Jumps arrive

Whatever emission had to go through, in the script that it ends with every jump has one place to go to.
The labels are read off what the bubbles write, each once, so that there is one for each bubble that
needs one; and the jumps are those of the links that the outlets have, so that there are as many to a
bubble as connections end there, but for the one that leaves the start.
-/

namespace StoryGraph

namespace Item

/-- The name that a label line gives. -/
def label? : Item → Option String
  | .line _ (.label name) => some name
  | _ => none

/-- The name that a line jumps to. -/
def goto? : Item → Option String
  | .line _ (.goto name) => some name
  | _ => none

theorem label?_eq_some_iff {i : Item} {name : String} :
    i.label? = some name ↔ ∃ level, i = .line level (.label name) := by
  constructor
  · intro h
    unfold label? at h
    split at h
    · obtain rfl := Option.some.inj h
      exact ⟨_, rfl⟩
    · simp at h
  · rintro ⟨level, rfl⟩
    rfl

theorem IsPlain.label?_eq_none {level : Nat} {i : Item} (h : i.IsPlain level) : i.label? = none := by
  cases i with
  | enter | blank => rfl
  | line l st =>
      cases st with
      | label => exact absurd h id
      | _ => rfl

theorem IsPlain.goto?_eq_none {level : Nat} {i : Item} (h : i.IsPlain level) : i.goto? = none := by
  cases i with
  | enter | blank => rfl
  | line l st =>
      cases st with
      | goto => exact absurd h id
      | _ => rfl

end Item

/-- The names of the labels in a script. -/
def labelNames (code : List Item) : List String := code.filterMap Item.label?

/-- The names that a script jumps to. -/
def gotoNames (code : List Item) : List String := code.filterMap Item.goto?

/-! ## Labels and jumps of one bubble -/

namespace LabelPolicy

variable {p : LabelPolicy}

/-- The name of a bubble that needs a label. -/
def name? (p : LabelPolicy) (u : Uid) : Option String :=
  if p.needsLabel u then some (p.labelName u) else none

theorem name?_eq_some_iff {u : Uid} {name : String} :
    p.name? u = some name ↔ p.needsLabel u ∧ p.labelName u = name := by simp [name?]

theorem labelNames_heading (u : Uid) : labelNames (p.heading u) = (p.name? u).toList := by
  unfold heading name?
  split <;> rfl

theorem gotoNames_heading (u : Uid) : gotoNames (p.heading u) = [] := by
  unfold heading
  split <;> rfl

/-- A part jumps where its link leads to a label, unless it is the entry of a start. -/
theorem gotoNames_writing {b : Bubble} {level : Nat} {part : Part} (h : part.IsOf b level) :
    gotoNames (p.writing part) =
      (part.slot?.toList.filterMap p.scene.link?).filterMap fun c ↦ p.name? c.target := by
  cases part with
  | item i => simp [writing, gotoNames, h.goto?_eq_none, Part.slot?]
  | bubble => rfl
  | entry =>
      simp only [writing]
      split <;> rfl
  | slot place l =>
      cases hlink : p.scene.link? place with
      | none => simp [writing, gotoNames, Part.slot?, hlink, Item.goto?]
      | some c =>
          by_cases hlabel : p.needsLabel c.target <;>
            simp [writing, gotoNames, Part.slot?, hlink, hlabel, Item.goto?, name?]

/-- Parts of a bubble jump where the links of their slots lead to labels. -/
theorem gotoNames_flatMap_writing {b : Bubble} {level : Nat} {parts : List Part}
    (h : ∀ part ∈ parts, part.IsOf b level) :
    gotoNames (parts.flatMap p.writing) =
      ((slotsOf parts).filterMap p.scene.link?).filterMap fun c ↦ p.name? c.target := by
  induction parts with
  | nil => rfl
  | cons part parts ih =>
      obtain ⟨hpart, hparts⟩ := List.forall_mem_cons.mp h
      have hslots : slotsOf (part :: parts) = part.slot?.toList ++ slotsOf parts := by
        cases hslot : part.slot? <;> simp [slotsOf, hslot]
      rw [hslots, List.filterMap_append, List.filterMap_append, ← gotoNames_writing hpart, ← ih hparts]
      exact List.filterMap_append

theorem labelNames_ownCode (level : Nat) (u : Uid) :
    labelNames (p.ownCode level u) = (p.name? u).toList := by
  rw [labelNames, filterMap_ownCode Item.IsPlain.label?_eq_none fun _ _ ↦ rfl]
  cases hb : p.scene.bubble? u with
  | none => simp [name?, Labelling.needsLabel, hb]
  | some b => exact labelNames_heading u

theorem gotoNames_ownCode (level : Nat) (u : Uid) :
    gotoNames (p.ownCode level u) =
      ((p.scene.outlets u).filterMap p.scene.link?).filterMap fun c ↦ p.name? c.target := by
  cases hb : p.scene.bubble? u with
  | none => simp [ownCode, hb, gotoNames, Scene.outlets]
  | some b =>
      have hparts : gotoNames ((b.parts (p.levelOf level u)).flatMap p.writing) = _ :=
        gotoNames_flatMap_writing fun _ ↦ isOf_of_mem_parts
      rw [ownCode_of_bubble? hb, gotoNames, List.filterMap_append]
      show gotoNames (p.heading u) ++ gotoNames _ = _
      rw [gotoNames_heading, hparts, slotsOf_parts, Scene.outlets_of_bubble? hb, List.nil_append]

end LabelPolicy

/-! ## Labels and jumps of a script -/

/-- `JumpsFit p code`: in a script that was emitted with the policy `p` every jump has one place to go
to, and every label is there for a bubble. -/
structure JumpsFit (p : LabelPolicy) (code : List Item) : Prop where
  /-- Bubbles that need a label are called differently. -/
  eq_of_name_eq : ∀ b ∈ p.scene.bubbles, ∀ b' ∈ p.scene.bubbles, p.needsLabel b.uid →
    p.needsLabel b'.uid → p.labelName b.uid = p.labelName b'.uid → b = b'
  /-- A bubble that needs a label has one label line. -/
  label_once : ∀ b ∈ p.scene.bubbles, p.needsLabel b.uid →
    (labelNames code).count (p.labelName b.uid) = 1
  /-- The label line of a bubble is where its code begins. -/
  label_place : ∀ b ∈ p.scene.bubbles, p.needsLabel b.uid →
    ∃ level, [.line level (.label (p.labelName b.uid)), .enter b.uid] <:+: code
  /-- There are no other label lines. -/
  of_mem_labelNames : ∀ name ∈ labelNames code, ∃ b ∈ p.scene.bubbles, p.needsLabel b.uid ∧
    p.labelName b.uid = name
  /-- A bubble that needs a label is jumped to once for each connection that ends there and does not
  leave the start. -/
  goto_count : ∀ b ∈ p.scene.bubbles, p.needsLabel b.uid →
    (gotoNames code).count (p.labelName b.uid) =
      p.scene.connections.countP fun c ↦ c.target = b.uid ∧ p.scene.leavesStart c = false
  /-- No other bubble is jumped to. -/
  of_mem_gotoNames : ∀ name ∈ gotoNames code, ∃ b ∈ p.scene.bubbles, p.needsLabel b.uid ∧
    p.labelName b.uid = name
  /-- A jump has one label to go to. -/
  goto_once : ∀ name ∈ gotoNames code, (labelNames code).count name = 1
  /-- A bubble that was forced to have a label has one, and is jumped to. -/
  forced : ∀ u ∈ p.forced, p.needsLabel u ∧ p.labelName u ∈ gotoNames code

namespace FinalPass

variable {p : LabelPolicy} {code : List Item} {emitted : List Uid} (h : FinalPass p code emitted)

include h

theorem labelNames_perm :
    (labelNames code).Perm (p.scene.bubbles.filterMap fun b ↦ p.name? b.uid) := by
  rw [List.filterMap_eq_flatMap_toList]
  exact h.filterMap_perm LabelPolicy.labelNames_ownCode

theorem gotoNames_perm :
    (gotoNames code).Perm
      ((p.scene.connections.filter fun c ↦ !p.scene.leavesStart c).filterMap
        fun c ↦ p.name? c.target) := by
  refine (h.filterMap_perm LabelPolicy.gotoNames_ownCode).trans ?_
  have hlinks := h.wellFormed.links_outlets_perm.filterMap fun c ↦ p.name? c.target
  rw [List.filterMap_flatMap] at hlinks
  refine (List.Perm.of_eq (List.flatMap_congr ?_)).trans hlinks
  intro b hb
  rw [Scene.outlets_of_bubble? (h.wellFormed.bubble?_uid hb)]

theorem eq_of_name_eq {b b' : Bubble} (hb : b ∈ p.scene.bubbles) (hb' : b' ∈ p.scene.bubbles)
    (hlabel : p.needsLabel b.uid) (hlabel' : p.needsLabel b'.uid)
    (hname : p.labelName b.uid = p.labelName b'.uid) : b = b' := by
  have huid := LabelPolicy.eq_of_labelName_eq (h.mem_labelled hb hlabel) (h.mem_labelled hb' hlabel')
    hname
  exact h.wellFormed.eq_of_mem_uids hb hb' b.uid_mem_uids (huid ▸ b'.uid_mem_uids)

theorem nodup_labelNames : (labelNames code).Nodup := by
  refine h.labelNames_perm.nodup_iff.mpr (List.pairwise_filterMap.mpr ?_)
  have hbubbles : p.scene.bubbles.Nodup := .of_map _ h.wellFormed.nodup_bubbleUids
  refine hbubbles.pairwise_of_forall_ne fun b hb b' hb' hne name hname name' hname' heq ↦ hne ?_
  obtain ⟨hlabel, rfl⟩ := LabelPolicy.name?_eq_some_iff.mp hname
  obtain ⟨hlabel', rfl⟩ := LabelPolicy.name?_eq_some_iff.mp hname'
  exact h.eq_of_name_eq hb hb' hlabel hlabel' heq

theorem mem_labelNames {name : String} :
    name ∈ labelNames code ↔
      ∃ b ∈ p.scene.bubbles, p.needsLabel b.uid ∧ p.labelName b.uid = name := by
  simp only [h.labelNames_perm.mem_iff, List.mem_filterMap, LabelPolicy.name?_eq_some_iff]

/-- The labels that the policy has are those of the script. -/
theorem labelled_perm : (p.labelled.map p.labelName).Perm (labelNames code) := by
  have hlabelled : p.labelled.map p.labelName = p.sequence.filterMap p.name? := by
    rw [Labelling.labelled, ← List.filterMap_eq_map, List.filterMap_filter]
    rfl
  rw [hlabelled, h.sequence]
  refine (p.scene.sequence_perm.filterMap p.name?).trans ?_
  rw [List.filterMap_map]
  exact h.labelNames_perm.symm

theorem of_mem_gotoNames {name : String} (hname : name ∈ gotoNames code) :
    ∃ b ∈ p.scene.bubbles, p.needsLabel b.uid ∧ p.labelName b.uid = name := by
  obtain ⟨c, hc, hc'⟩ := List.mem_filterMap.mp (h.gotoNames_perm.mem_iff.mp hname)
  obtain ⟨hlabel, rfl⟩ := LabelPolicy.name?_eq_some_iff.mp hc'
  obtain ⟨b, hb, hmem, -⟩ := h.wellFormed.exists_target (List.mem_filter.mp hc).1
  have huid := Scene.uid_of_bubble? hb
  exact ⟨b, hmem, huid ▸ hlabel, by rw [huid]⟩

/-- The name of a bubble is the target's name of those connections that end there. -/
theorem name?_target_eq_iff {b : Bubble} (hb : b ∈ p.scene.bubbles) (hlabel : p.needsLabel b.uid)
    {c : Connection} (hc : c ∈ p.scene.connections) :
    p.name? c.target = some (p.labelName b.uid) ↔ c.target = b.uid := by
  rw [LabelPolicy.name?_eq_some_iff]
  constructor
  · rintro ⟨hlabel', hname⟩
    obtain ⟨b', hb', hmem, -⟩ := h.wellFormed.exists_target hc
    rw [← Scene.uid_of_bubble? hb'] at hlabel' hname ⊢
    rw [h.eq_of_name_eq hmem hb hlabel' hlabel hname]
  · intro heq
    rw [heq]
    exact ⟨hlabel, rfl⟩

theorem goto_count {b : Bubble} (hb : b ∈ p.scene.bubbles) (hlabel : p.needsLabel b.uid) :
    (gotoNames code).count (p.labelName b.uid) =
      p.scene.connections.countP fun c ↦ c.target = b.uid ∧ p.scene.leavesStart c = false := by
  rw [h.gotoNames_perm.count_eq, List.count_filterMap, List.countP_filter]
  refine List.countP_congr ?_
  intro c hc
  simp [h.name?_target_eq_iff hb hlabel hc]

/-- The label line of a bubble is where its code begins. -/
theorem label_place {b : Bubble} (hb : b ∈ p.scene.bubbles) (hlabel : p.needsLabel b.uid) :
    ∃ level, [.line level (.label (p.labelName b.uid)), .enter b.uid] <:+: code := by
  have hmem := h.mem_labelNames.mpr ⟨b, hb, hlabel, rfl⟩
  obtain ⟨i, hi, hname⟩ := List.mem_filterMap.mp hmem
  obtain ⟨level, rfl⟩ := Item.label?_eq_some_iff.mp hname
  obtain ⟨before, rest, rfl⟩ := List.append_of_mem hi
  obtain ⟨u, b', rest', hb', hlabel', hname', rfl⟩ :=
    h.emits.of_label_suffix h.wellFormed (nested_roots _ _) (List.suffix_append _ _)
  obtain rfl := Scene.uid_of_bubble? hb'
  obtain rfl := h.eq_of_name_eq hb (Scene.mem_of_bubble? hb') hlabel hlabel' hname'
  exact ⟨level, before, rest', by simp⟩

theorem jumpsFit : JumpsFit p code where
  eq_of_name_eq _ hb _ hb' := h.eq_of_name_eq hb hb'
  label_once b hb hlabel :=
    List.count_eq_one_of_mem h.nodup_labelNames (h.mem_labelNames.mpr ⟨b, hb, hlabel, rfl⟩)
  label_place _ hb := h.label_place hb
  of_mem_labelNames _ := h.mem_labelNames.mp
  goto_count _ hb := h.goto_count hb
  of_mem_gotoNames _ := h.of_mem_gotoNames
  goto_once name hname :=
    List.count_eq_one_of_mem h.nodup_labelNames (h.mem_labelNames.mpr (h.of_mem_gotoNames hname))
  forced u hu := by
    obtain ⟨c, hc, rfl, hslot⟩ := h.forced u hu
    obtain ⟨b, hb, -⟩ := h.wellFormed.exists_target hc
    have hlabel := LabelPolicy.needsLabel_of_mem_forced hu hb
    refine ⟨hlabel, h.gotoNames_perm.mem_iff.mpr (List.mem_filterMap.mpr ⟨c, ?_, ?_⟩)⟩
    · simp [hc, (h.wellFormed.isOutlet_iff hc).mp hslot]
    · exact LabelPolicy.name?_eq_some_iff.mpr ⟨hlabel, rfl⟩

end FinalPass

/-- Wherever a well-formed scene is emitted along its sequence, the jumps and the labels of the script
fit: every jump goes to the one label line of the bubble that it is meant for, and there are as many of
them as connections that end there and do not leave the start. -/
theorem Scene.jumpsFit_of_emit {s : Scene} (hs : s.WellFormed) {limit : Nat} {code : List Item}
    {p : LabelPolicy} (h : s.emit s.sequence limit = .ok (code, p)) : p.scene = s ∧ JumpsFit p code := by
  obtain ⟨hscene, emitted, hpass⟩ := s.exists_finalPass hs h
  exact ⟨hscene, hpass.jumpsFit⟩

theorem Scene.jumpsFit_turningBack :
    turningBack.WellFormed ∧ ∃ code p, turningBack.emit turningBack.sequence 3 = .ok (code, p) ∧
      p.scene = turningBack ∧ JumpsFit p code := by
  obtain ⟨code, p, h⟩ := exists_emit_turningBack
  exact ⟨wellFormed_turningBack, code, p, h, jumpsFit_of_emit wellFormed_turningBack h⟩

end StoryGraph
