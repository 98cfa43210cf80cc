import StoryGraph.Proofs.Script.Pass

/-!
# The tree of a bubble

What follows a bubble in line can be drawn without keeping a record of what has been emitted: whether a
link ends at a jump, and whether the link of a start is followed at all, can be seen from the policy
alone. Drawing goes down from the bubble as far as there is room, and a link may lead back, so a tree may
have no end; `Draws` is for those that have one. A run that finds nothing stranded writes such trees.
-/

namespace StoryGraph

namespace LabelPolicy

/-- Whether a bubble comes before another in the sequence. -/
def comesBefore (p : LabelPolicy) (u v : Uid) : Bool := p.sequence.idxOf u < p.sequence.idxOf v

/-- The code of a part, where `tree` draws the trees of bubbles. A target with a label is jumped to. The
link of a start is followed, labelled or not, to a target that comes later in the sequence. -/
def draw (p : LabelPolicy) (tree : Nat → Uid → Option (List Item)) : Part → Option (List Item)
  | .item i => some [i]
  | .slot slot level =>
      match p.scene.link? slot with
      | none => some [.line level .finish]
      | some c =>
          if p.needsLabel c.target then some [.line level (.goto (p.labelName c.target))]
          else tree level c.target
  | .entry slot level =>
      match p.scene.link? slot with
      | none => some [.line level .finish]
      | some c => if p.comesBefore slot.source c.target then tree level c.target else some []
  | .bubble level uid => tree level uid

/-- The code of parts, one after the other. -/
def drawAll (p : LabelPolicy) (tree : Nat → Uid → Option (List Item)) :
    List Part → Option (List Item)
  | [] => some []
  | part :: parts => do return (← p.draw tree part) ++ (← p.drawAll tree parts)

/-- The tree of a bubble at a level: its heading, and the code of its parts. There is room for so many
bubbles below each other. -/
def tree? (p : LabelPolicy) : Nat → Nat → Uid → Option (List Item)
  | 0, _, _ => none
  | room + 1, level, uid => do
      let b ← p.scene.bubble? uid
      return p.heading uid ++ (← p.drawAll (p.tree? room) (b.parts (p.levelOf level uid)))

variable {p : LabelPolicy}

/-! ## Room -/

section

variable {tree tree' : Nat → Uid → Option (List Item)} (h : ∀ l u, ∀ code ∈ tree l u, code ∈ tree' l u)

include h

theorem draw_mono {part : Part} {code : List Item} (hcode : code ∈ p.draw tree part) :
    code ∈ p.draw tree' part := by
  cases part with
  | item i => exact hcode
  | bubble level u => exact h level u code hcode
  | slot | entry =>
      simp only [draw] at hcode ⊢
      split
      · rename_i hlink
        simpa [hlink] using hcode
      · rename_i c hlink
        simp only [hlink] at hcode
        split <;> simp_all

theorem drawAll_mono {parts : List Part} {code : List Item} (hcode : code ∈ p.drawAll tree parts) :
    code ∈ p.drawAll tree' parts := by
  induction parts generalizing code with
  | nil => exact hcode
  | cons part parts ih =>
      simp only [drawAll, Option.mem_def, Option.bind_eq_bind, Option.bind_eq_some_iff] at hcode ⊢
      obtain ⟨first, hfirst, others, hothers, heq⟩ := hcode
      exact ⟨first, draw_mono h hfirst, others, ih hothers, heq⟩

end

theorem tree?_succ {room level : Nat} {u : Uid} {code : List Item} (h : code ∈ p.tree? room level u) :
    code ∈ p.tree? (room + 1) level u := by
  induction room generalizing level u code with
  | zero => simp [tree?] at h
  | succ room ih =>
      rw [tree?] at h ⊢
      simp only [Option.mem_def, Option.bind_eq_bind, Option.bind_eq_some_iff] at h ⊢
      obtain ⟨b, hb, body, hbody, heq⟩ := h
      exact ⟨b, hb, body, drawAll_mono (fun _ _ _ ↦ ih) hbody, heq⟩

theorem tree?_mono {room room' : Nat} (hle : room ≤ room') {level : Nat} {u : Uid} {code : List Item}
    (h : code ∈ p.tree? room level u) : code ∈ p.tree? room' level u := by
  induction hle with
  | refl => exact h
  | step _ ih => exact tree?_succ ih

theorem drawAll_append {tree : Nat → Uid → Option (List Item)} {first second : List Part}
    {code : List Item} :
    p.drawAll tree (first ++ second) = some code ↔
      ∃ code₁ code₂, p.drawAll tree first = some code₁ ∧ p.drawAll tree second = some code₂ ∧
        code = code₁ ++ code₂ := by
  induction first generalizing code with
  | nil => simp [drawAll]
  | cons part first ih =>
      simp only [List.cons_append, drawAll, Option.bind_eq_bind, Option.bind_eq_some_iff, ih,
        Option.pure_def, Option.some.injEq]
      constructor
      · rintro ⟨items, hitems, _, ⟨code₁, code₂, h₁, h₂, rfl⟩, rfl⟩
        exact ⟨items ++ code₁, code₂, ⟨items, hitems, code₁, h₁, rfl⟩, h₂, by simp⟩
      · rintro ⟨_, code₂, ⟨items, hitems, code₁, h₁, rfl⟩, h₂, rfl⟩
        exact ⟨items, hitems, code₁ ++ code₂, ⟨code₁, code₂, h₁, h₂, rfl⟩, by simp⟩

end LabelPolicy

/-! ## Parts with an end -/

/-- `Draws p parts code`: with enough room parts are drawn as `code`. -/
def Draws (p : LabelPolicy) (parts : List Part) (code : List Item) : Prop :=
  ∃ room, p.drawAll (p.tree? room) parts = some code

namespace Draws

variable {p : LabelPolicy} {parts first second : List Part} {code code₁ code₂ : List Item}

/-- What is drawn does not depend on the room, once there is enough. -/
theorem exists_room (h : Draws p parts code) :
    ∃ room, ∀ room' ≥ room, p.drawAll (p.tree? room') parts = some code := by
  obtain ⟨room, hroom⟩ := h
  exact ⟨room, fun room' hle ↦
    LabelPolicy.drawAll_mono (fun _ _ _ ↦ LabelPolicy.tree?_mono hle) hroom⟩

theorem nil (p : LabelPolicy) : Draws p [] [] := ⟨0, rfl⟩

theorem append (h₁ : Draws p first code₁) (h₂ : Draws p second code₂) :
    Draws p (first ++ second) (code₁ ++ code₂) := by
  obtain ⟨room₁, h₁⟩ := h₁.exists_room
  obtain ⟨room₂, h₂⟩ := h₂.exists_room
  refine ⟨max room₁ room₂, LabelPolicy.drawAll_append.mpr ⟨code₁, code₂, ?_, ?_, rfl⟩⟩
  · exact h₁ _ (Nat.le_max_left ..)
  · exact h₂ _ (Nat.le_max_right ..)

theorem split (h : Draws p (first ++ second) code) :
    ∃ code₁ code₂, code = code₁ ++ code₂ ∧ Draws p first code₁ ∧ Draws p second code₂ := by
  obtain ⟨room, hroom⟩ := h
  obtain ⟨code₁, code₂, h₁, h₂, rfl⟩ := LabelPolicy.drawAll_append.mp hroom
  exact ⟨code₁, code₂, rfl, ⟨room, h₁⟩, ⟨room, h₂⟩⟩

/-- A part is drawn as another where drawing it comes to that. -/
theorem of_draw_eq {part part' : Part} (h : Draws p (part' :: parts) code)
    (hdraw : ∀ room, p.draw (p.tree? room) part = p.draw (p.tree? room) part') :
    Draws p (part :: parts) code := by
  obtain ⟨room, hroom⟩ := h
  refine ⟨room, ?_⟩
  rw [LabelPolicy.drawAll, hdraw]
  exact hroom

theorem cons_of_draw {part : Part} {items : List Item}
    (hdraw : ∀ room, p.draw (p.tree? room) part = some items) (h : Draws p parts code) :
    Draws p (part :: parts) (items ++ code) := by
  obtain ⟨room, hroom⟩ := h
  refine ⟨room, ?_⟩
  simp [LabelPolicy.drawAll, hdraw, hroom]

/-- A bubble is drawn as its heading and its parts. -/
theorem bubble {u : Uid} {b : Bubble} {level : Nat} (hb : p.scene.bubble? u = some b)
    (h : Draws p (b.parts (p.levelOf level u) ++ parts) code) :
    Draws p (.bubble level u :: parts) (p.heading u ++ code) := by
  obtain ⟨body, others, rfl, ⟨room, hbody⟩, hothers⟩ := h.split
  have hfirst : Draws p [.bubble level u] (p.heading u ++ body) :=
    ⟨room + 1, by simp [LabelPolicy.drawAll, LabelPolicy.draw, LabelPolicy.tree?, hb, hbody]⟩
  rw [← List.append_assoc]
  exact hfirst.append hothers

end Draws

/-! ## Runs that find nothing stranded -/

/-- Whether a part is one that a bubble other than a start has. -/
def Part.IsInner : Part → Prop
  | .item _ | .slot _ _ => True
  | .entry _ _ | .bubble _ _ => False

/-- Whether parts, at a place in a pass, are those to come within a tree. A bubble may only be the next
one, and then it has not been emitted and is no start. -/
def Within (p : LabelPolicy) (g : Progress) : List Part → Prop
  | .bubble _ u :: parts =>
      (u ∉ g.emitted ∧ ∃ b, p.scene.bubble? u = some b ∧ b.isStart = false) ∧
        ∀ part ∈ parts, part.IsInner
  | parts => ∀ part ∈ parts, part.IsInner

theorem within_of_isInner {p : LabelPolicy} {g : Progress} {parts : List Part}
    (h : ∀ part ∈ parts, part.IsInner) : Within p g parts := by
  cases parts with
  | nil => exact h
  | cons part parts =>
      cases part with
      | bubble => exact absurd (h _ List.mem_cons_self) id
      | _ => exact h

theorem isInner_of_mem_parts {b : Bubble} (hb : b.isStart = false) {level : Nat} {part : Part}
    (h : part ∈ b.parts level) : part.IsInner := by
  have hof := isOf_of_mem_parts h
  cases part with
  | item | slot => trivial
  | entry => simp [Part.IsOf, hb] at hof
  | bubble => exact hof

/-- A run within a tree that finds nothing stranded writes the tree. -/
theorem Emits.draws {p : LabelPolicy} (hwf : p.scene.WellFormed) {g g' : Progress}
    {parts : List Part} {code : List Item} (h : Emits p g parts code g') (hstranded : g'.stranded = [])
    (hwithin : Within p g parts) : Draws p parts code := by
  induction h with
  | done g => exact .nil p
  | @step g g₁ g' part front parts items code first rest ih =>
      have hrest := ih hstranded
      cases first with
      | item =>
          have hinner := (List.forall_mem_cons.mp hwithin).2
          exact .cons_of_draw (fun _ ↦ rfl) (hrest (within_of_isInner hinner))
      | finish hlink =>
          have hinner := (List.forall_mem_cons.mp hwithin).2
          refine .cons_of_draw (fun _ ↦ ?_) (hrest (within_of_isInner hinner))
          simp [LabelPolicy.draw, hlink]
      | jump hlink hlabel =>
          have hinner := (List.forall_mem_cons.mp hwithin).2
          refine .cons_of_draw (fun _ ↦ ?_) (hrest (within_of_isInner hinner))
          simp [LabelPolicy.draw, hlink, hlabel]
      | strand hlink hlabel hmem =>
          have hnil := rest.stranded_eq_nil hstranded
          simp at hnil
      | @inline _ level c hlink hlabel hnew =>
          have hinner := (List.forall_mem_cons.mp hwithin).2
          obtain ⟨b, hb, -, hstart⟩ := hwf.exists_target_of_link? hlink
          have htarget := hrest ⟨⟨hnew, b, hb, hstart⟩, hinner⟩
          refine htarget.of_draw_eq fun _ ↦ ?_
          simp [LabelPolicy.draw, hlink, hlabel]
      | entryFinish | entry => exact absurd (hwithin _ List.mem_cons_self) id
      | skip hmem => exact absurd hmem hwithin.1.1
      | unknown _ hbubble =>
          obtain ⟨⟨-, b, hb, -⟩, -⟩ := hwithin
          simp [hb] at hbubble
      | take _ hbubble =>
          obtain ⟨⟨-, b, hb, hstart⟩, hinner⟩ := hwithin
          obtain rfl := Option.some.inj (hb.symm.trans hbubble)
          refine .bubble hbubble (hrest (within_of_isInner ?_))
          intro part hpart
          rcases List.mem_append.mp hpart with hpart | hpart
          · exact isInner_of_mem_parts hstart hpart
          · exact hinner part hpart

end StoryGraph
