import StoryGraph.Proofs.Scene.Joinless
import StoryGraph.Proofs.Script.Jumps
import StoryGraph.Proofs.Script.Tree

/-!
# A scene written out

Without labels and jumps, a scene is written out from its start by putting behind every link the bubble
where it ends. That takes nothing but the scene, and it has an end only where no links lead in a circle.
What is written out from the start has every bubble that can be reached, and it is what the trees of a
policy come to that has no labels for these bubbles.
-/

namespace StoryGraph

/-- The slot that a part follows, and the level of what stands behind it. -/
def Part.link? : Part → Option (Slot × Nat)
  | .slot place level | .entry place level => some (place, level)
  | .item _ | .bubble _ _ => none

/-- `s.Unfolds parts code`: parts are written out as `code`, with every link followed in line. -/
inductive Scene.Unfolds (s : Scene) : List Part → List Item → Prop
  | nil : s.Unfolds [] []
  | item {i : Item} {parts : List Part} {code : List Item} (rest : s.Unfolds parts code) :
      s.Unfolds (.item i :: parts) (i :: code)
  | finish {part : Part} {place : Slot} {level : Nat} {parts : List Part} {code : List Item}
      (hpart : part.link? = some (place, level)) (hlink : s.link? place = none)
      (rest : s.Unfolds parts code) : s.Unfolds (part :: parts) (.line level .finish :: code)
  | follow {part : Part} {place : Slot} {level : Nat} {c : Connection} {parts : List Part}
      {items code : List Item} (hpart : part.link? = some (place, level))
      (hlink : s.link? place = some c) (target : s.Unfolds [.bubble level c.target] items)
      (rest : s.Unfolds parts code) : s.Unfolds (part :: parts) (items ++ code)
  | bubble {level : Nat} {u : Uid} {b : Bubble} {parts : List Part} {items code : List Item}
      (hb : s.bubble? u = some b) (body : s.Unfolds (b.parts level) items)
      (rest : s.Unfolds parts code) : s.Unfolds (.bubble level u :: parts) (.enter u :: items ++ code)

/-- A bubble has a part for each of its slots. -/
theorem Bubble.exists_part_of_mem_slots {b : Bubble} {slot : Slot} (h : slot ∈ b.slots) (level : Nat) :
    ∃ part ∈ b.parts level, ∃ l, part.link? = some (slot, l) := by
  cases hstart : b.isStart with
  | true =>
      rw [slots_of_isStart hstart, List.mem_singleton] at h
      rw [parts_of_isStart hstart, h]
      exact ⟨_, List.mem_cons_self, level, rfl⟩
  | false =>
      have hmem : slot ∈ slotsOf (b.parts level) := by
        rw [slotsOf_parts]
        exact mem_outlets.mpr ⟨hstart, h⟩
      obtain ⟨part, hpart, hslot⟩ := List.mem_filterMap.mp hmem
      cases part with
      | slot place l =>
          obtain rfl := Option.some.inj hslot
          exact ⟨_, hpart, l, rfl⟩
      | _ => simp [Part.slot?] at hslot

/-! ## What is written out -/

namespace Scene.Unfolds

variable {s : Scene} {parts : List Part} {code : List Item}

/-- There is one way to write parts out. -/
theorem unique (h : s.Unfolds parts code) {code' : List Item} (h' : s.Unfolds parts code') :
    code = code' := by
  induction h generalizing code' with
  | nil =>
      cases h'
      rfl
  | item _ ih =>
      cases h' with
      | item rest => rw [ih rest]
      | finish hpart | follow hpart => cases hpart
  | finish hpart hlink _ ih =>
      cases h' with
      | item | bubble => cases hpart
      | finish hpart' _ rest =>
          obtain ⟨rfl, rfl⟩ := Prod.mk.inj (Option.some.inj (hpart.symm.trans hpart'))
          rw [ih rest]
      | follow hpart' hlink' =>
          obtain ⟨rfl, rfl⟩ := Prod.mk.inj (Option.some.inj (hpart.symm.trans hpart'))
          cases hlink.symm.trans hlink'
  | follow hpart hlink _ _ ihtarget ih =>
      cases h' with
      | item | bubble => cases hpart
      | finish hpart' hlink' =>
          obtain ⟨rfl, rfl⟩ := Prod.mk.inj (Option.some.inj (hpart.symm.trans hpart'))
          cases hlink.symm.trans hlink'
      | follow hpart' hlink' target rest =>
          obtain ⟨rfl, rfl⟩ := Prod.mk.inj (Option.some.inj (hpart.symm.trans hpart'))
          obtain rfl := Option.some.inj (hlink.symm.trans hlink')
          rw [ihtarget target, ih rest]
  | bubble hb _ _ ihbody ih =>
      cases h' with
      | finish hpart | follow hpart => cases hpart
      | bubble hb' body rest =>
          obtain rfl := Option.some.inj (hb.symm.trans hb')
          rw [ihbody body, ih rest]

/-- A bubble is written out from its mark on. -/
theorem enter_mem {level : Nat} {u : Uid} (h : s.Unfolds [.bubble level u] code) : .enter u ∈ code := by
  cases h with
  | finish hpart | follow hpart => cases hpart
  | bubble => exact List.mem_cons_self

/-- Behind a part that follows a link stands the bubble where the link ends. -/
theorem enter_target_mem (h : s.Unfolds parts code) {part : Part} (hmem : part ∈ parts) {place : Slot}
    {level : Nat} (hpart : part.link? = some (place, level)) {c : Connection}
    (hlink : s.link? place = some c) : .enter c.target ∈ code := by
  induction h with
  | nil => simp at hmem
  | item _ ih =>
      rcases List.mem_cons.mp hmem with rfl | hmem
      · cases hpart
      · exact List.mem_cons_of_mem _ (ih hmem)
  | finish hpart' hlink' _ ih =>
      rcases List.mem_cons.mp hmem with rfl | hmem
      · obtain ⟨rfl, rfl⟩ := Prod.mk.inj (Option.some.inj (hpart.symm.trans hpart'))
        cases hlink.symm.trans hlink'
      · exact List.mem_cons_of_mem _ (ih hmem)
  | follow hpart' hlink' target _ _ ih =>
      rcases List.mem_cons.mp hmem with rfl | hmem
      · obtain ⟨rfl, rfl⟩ := Prod.mk.inj (Option.some.inj (hpart.symm.trans hpart'))
        obtain rfl := Option.some.inj (hlink.symm.trans hlink')
        exact List.mem_append_left _ target.enter_mem
      · exact List.mem_append_right _ (ih hmem)
  | bubble hb body _ ihbody ih =>
      rcases List.mem_cons.mp hmem with rfl | hmem
      · cases hpart
      · exact List.mem_append_right _ (ih hmem)

end Scene.Unfolds

/-! ## What is written out from the start -/

/-- Whether a part is one of a bubble that can be reached, or leads to one. -/
def Part.Inside (s : Scene) : Part → Prop
  | .item i => i.IsPlain 0
  | .slot place _ => ∃ b ∈ s.bubbles, b.uid ∈ s.reachable ∧ place ∈ b.slots
  | .entry place _ => ∃ b ∈ s.bubbles, b.uid ∈ s.reachable ∧ place ∈ b.slots ∧ place.source = b.uid
  | .bubble _ u => u ∈ s.reachable

theorem inside_parts {s : Scene} {u : Uid} {b : Bubble} (hb : s.bubble? u = some b)
    (hreach : u ∈ s.reachable) (level : Nat) : ∀ part ∈ b.parts level, part.Inside s := by
  intro part hpart
  have hmem := Scene.mem_of_bubble? hb
  obtain rfl := Scene.uid_of_bubble? hb
  have hof := isOf_of_mem_parts hpart
  cases part with
  | item i => exact hof.mono (Nat.zero_le _)
  | bubble => exact absurd hof id
  | slot place l =>
      have hslot : place ∈ slotsOf (b.parts level) := List.mem_filterMap.mpr ⟨_, hpart, rfl⟩
      rw [slotsOf_parts] at hslot
      exact ⟨b, hmem, hreach, (Bubble.mem_outlets.mp hslot).2⟩
  | entry place l =>
      obtain ⟨hstart, rfl, -⟩ := hof
      exact ⟨b, hmem, hreach, by simp [Bubble.slots_of_isStart hstart], rfl⟩

theorem inside_start {s : Scene} {start : Bubble} (hstart : s.start? = some start) (level : Nat) :
    ∀ part ∈ [Part.bubble level start.uid], part.Inside s :=
  List.forall_mem_singleton.mpr ((Scene.mem_reachable_iff hstart).mpr .refl)

/-- A link that a part inside follows leads to a bubble that can be reached. -/
theorem Scene.WellFormed.target_of_inside {s : Scene} (h : s.WellFormed) {part : Part}
    (hpart : part.Inside s) {place : Slot} {level : Nat} (hplace : part.link? = some (place, level))
    {c : Connection} (hlink : s.link? place = some c) : c.target ∈ s.reachable := by
  have hslot : ∃ b ∈ s.bubbles, b.uid ∈ s.reachable ∧ place ∈ b.slots := by
    cases part with
    | item | bubble => cases hplace
    | slot =>
        obtain ⟨rfl, rfl⟩ := Prod.mk.inj (Option.some.inj hplace)
        exact hpart
    | entry =>
        obtain ⟨rfl, rfl⟩ := Prod.mk.inj (Option.some.inj hplace)
        obtain ⟨b, hb, hreach, hslot, -⟩ := hpart
        exact ⟨b, hb, hreach, hslot⟩
  obtain ⟨b, hb, hreach, hslot⟩ := hslot
  obtain ⟨hc, rfl⟩ := h.link?_eq_some_iff.mp hlink
  exact h.target_mem_reachable hreach ((h.mem_links_iff hb).mpr ⟨hc, hslot⟩)

namespace Scene.Unfolds

variable {s : Scene} {parts : List Part} {code : List Item}

/-- What is written out inside are plain items and marks of bubbles that can be reached. -/
theorem of_mem (h : s.Unfolds parts code) (hs : s.WellFormed)
    (hparts : ∀ part ∈ parts, part.Inside s) :
    ∀ i ∈ code, i.IsPlain 0 ∨ ∃ u ∈ s.reachable, i = .enter u := by
  induction h with
  | nil => simp
  | item _ ih =>
      obtain ⟨hitem, hparts⟩ := List.forall_mem_cons.mp hparts
      exact List.forall_mem_cons.mpr ⟨.inl hitem, ih hparts⟩
  | finish _ _ _ ih =>
      have hparts := (List.forall_mem_cons.mp hparts).2
      exact List.forall_mem_cons.mpr ⟨.inl (Nat.zero_le _), ih hparts⟩
  | follow hpart hlink _ _ ihtarget ih =>
      obtain ⟨hinside, hparts⟩ := List.forall_mem_cons.mp hparts
      have htarget := hs.target_of_inside hinside hpart hlink
      exact List.forall_mem_append.mpr ⟨ihtarget (List.forall_mem_singleton.mpr htarget), ih hparts⟩
  | bubble hb _ _ ihbody ih =>
      obtain ⟨hreach, hparts⟩ := List.forall_mem_cons.mp hparts
      have hbody := ihbody (inside_parts hb hreach _)
      exact List.forall_mem_append.mpr
        ⟨List.forall_mem_cons.mpr ⟨.inr ⟨_, hreach, rfl⟩, hbody⟩, ih hparts⟩

/-- With a bubble all those are written out that its links lead to. -/
theorem links_closed (h : s.Unfolds parts code) (hs : s.WellFormed)
    (hparts : ∀ part ∈ parts, part.Inside s) {u : Uid} (hu : .enter u ∈ code) {c : Connection}
    (hc : c ∈ s.links u) : .enter c.target ∈ code := by
  induction h with
  | nil => simp at hu
  | item _ ih =>
      obtain ⟨hitem, hparts⟩ := List.forall_mem_cons.mp hparts
      rcases List.mem_cons.mp hu with rfl | hu
      · exact absurd hitem id
      · exact List.mem_cons_of_mem _ (ih hparts hu)
  | finish _ _ _ ih =>
      have hparts := (List.forall_mem_cons.mp hparts).2
      rcases List.mem_cons.mp hu with heq | hu
      · cases heq
      · exact List.mem_cons_of_mem _ (ih hparts hu)
  | follow hpart hlink _ _ ihtarget ih =>
      obtain ⟨hinside, hparts⟩ := List.forall_mem_cons.mp hparts
      have htarget := hs.target_of_inside hinside hpart hlink
      rcases List.mem_append.mp hu with hu | hu
      · exact List.mem_append_left _ (ihtarget (List.forall_mem_singleton.mpr htarget) hu)
      · exact List.mem_append_right _ (ih hparts hu)
  | bubble hb body _ ihbody ih =>
      obtain ⟨hreach, hparts⟩ := List.forall_mem_cons.mp hparts
      rcases List.mem_append.mp hu with hu | hu
      · refine List.mem_append_left _ ?_
        rcases List.mem_cons.mp hu with heq | hu
        · obtain rfl := Item.enter.inj heq
          obtain rfl := uid_of_bubble? hb
          obtain ⟨hc, hslot⟩ := (hs.mem_links_iff (mem_of_bubble? hb)).mp hc
          obtain ⟨part, hpart, l, hplace⟩ := Bubble.exists_part_of_mem_slots hslot _
          have hlink := hs.link?_eq_some_iff.mpr ⟨hc, rfl⟩
          exact List.mem_cons_of_mem _ (body.enter_target_mem hpart hplace hlink)
        · exact List.mem_cons_of_mem _ (ihbody (inside_parts hb hreach _) hu)
      · exact List.mem_append_right _ (ih hparts hu)

/-- From the start the bubbles are written out that can be reached. -/
theorem enter_mem_iff {start : Bubble} {level : Nat} (h : s.Unfolds [.bubble level start.uid] code)
    (hs : s.WellFormed) (hstart : s.start? = some start) {u : Uid} :
    .enter u ∈ code ↔ u ∈ s.reachable := by
  have hinside := inside_start hstart level
  constructor
  · intro hu
    rcases h.of_mem hs hinside _ hu with hplain | ⟨v, hv, heq⟩
    · exact absurd hplain id
    · rwa [Item.enter.inj heq]
  · intro hu
    rw [mem_reachable_iff hstart] at hu
    induction hu with
    | refl => exact h.enter_mem
    | tail _ hlink ih =>
        obtain ⟨c, hc, rfl⟩ := hlink
        exact h.links_closed hs hinside ih hc

/-- What is written out from the start has no labels and no jumps. -/
theorem names_eq_nil {start : Bubble} {level : Nat} (h : s.Unfolds [.bubble level start.uid] code)
    (hs : s.WellFormed) (hstart : s.start? = some start) :
    labelNames code = [] ∧ gotoNames code = [] := by
  have hinside := inside_start hstart level
  constructor
  · refine List.filterMap_eq_nil_iff.mpr fun i hi ↦ ?_
    rcases h.of_mem hs hinside i hi with hplain | ⟨u, -, rfl⟩
    · exact hplain.label?_eq_none
    · rfl
  · refine List.filterMap_eq_nil_iff.mpr fun i hi ↦ ?_
    rcases h.of_mem hs hinside i hi with hplain | ⟨u, -, rfl⟩
    · exact hplain.goto?_eq_none
    · rfl

end Scene.Unfolds

/-! ## Trees without labels -/

namespace LabelPolicy

variable {p : LabelPolicy} (hs : p.scene.WellFormed)
  (hlabel : ∀ u ∈ p.scene.reachable, ¬ p.needsLabel u)
  (hbefore : ∀ b ∈ p.scene.bubbles, b.uid ∈ p.scene.reachable → ∀ c ∈ p.scene.links b.uid,
    p.comesBefore b.uid c.target)

include hs hlabel hbefore

theorem unfolds_of_drawAll {tree : Nat → Uid → Option (List Item)}
    (htree : ∀ level u items, tree level u = some items → u ∈ p.scene.reachable →
      p.scene.Unfolds [.bubble level u] items)
    {parts : List Part} {code : List Item} (h : p.drawAll tree parts = some code)
    (hparts : ∀ part ∈ parts, part.Inside p.scene) : p.scene.Unfolds parts code := by
  induction parts generalizing code with
  | nil =>
      obtain rfl := Option.some.inj h
      exact .nil
  | cons part parts ih =>
      obtain ⟨hinside, hparts⟩ := List.forall_mem_cons.mp hparts
      simp only [drawAll, Option.bind_eq_bind, Option.bind_eq_some_iff, Option.pure_def,
        Option.some.injEq] at h
      obtain ⟨items, hitems, others, hothers, rfl⟩ := h
      have hrest := ih hothers hparts
      cases part with
      | item i =>
          obtain rfl := Option.some.inj hitems
          exact .item hrest
      | bubble level u =>
          cases htree level u items hitems hinside with
          | finish hpart | follow hpart => cases hpart
          | bubble hb body rest =>
              cases rest
              rw [List.append_nil]
              exact .bubble hb body hrest
      | slot place level =>
          simp only [draw] at hitems
          split at hitems
          · rename_i hlink
            obtain rfl := Option.some.inj hitems
            exact .finish rfl hlink hrest
          · rename_i c hlink
            have htarget := hs.target_of_inside hinside rfl hlink
            rw [if_neg (hlabel _ htarget)] at hitems
            exact .follow rfl hlink (htree level _ items hitems htarget) hrest
      | entry place level =>
          simp only [draw] at hitems
          split at hitems
          · rename_i hlink
            obtain rfl := Option.some.inj hitems
            exact .finish rfl hlink hrest
          · rename_i c hlink
            have htarget := hs.target_of_inside hinside rfl hlink
            obtain ⟨b, hb, hreach, hslot, hsource⟩ := hinside
            obtain ⟨hc, rfl⟩ := hs.link?_eq_some_iff.mp hlink
            have hlate := hbefore b hb hreach c ((hs.mem_links_iff hb).mpr ⟨hc, hslot⟩)
            rw [hsource, if_pos hlate] at hitems
            exact .follow rfl hlink (htree level _ items hitems htarget) hrest

/-- The tree of a bubble that can be reached is what is written out, where no such bubble needs a label and
each comes after the one whose link leads to it. -/
theorem unfolds_of_tree? {room level : Nat} {u : Uid} {items : List Item}
    (h : p.tree? room level u = some items) (hu : u ∈ p.scene.reachable) :
    p.scene.Unfolds [.bubble level u] items := by
  induction room generalizing level u items with
  | zero => cases h
  | succ room ih =>
      simp only [tree?, Option.bind_eq_bind, Option.bind_eq_some_iff, Option.pure_def,
        Option.some.injEq] at h
      obtain ⟨b, hb, body, hbody, rfl⟩ := h
      have hfree := hlabel u hu
      rw [levelOf, if_neg hfree] at hbody
      rw [heading, if_neg hfree]
      have hunfolds := unfolds_of_drawAll hs hlabel hbefore (fun _ _ _ ↦ ih) hbody
        (inside_parts hb hu level)
      have hbubble := Scene.Unfolds.bubble hb hunfolds .nil
      rwa [List.append_nil] at hbubble

end LabelPolicy

/-- What is drawn of the start is what is written out from it. -/
theorem Draws.unfolds {p : LabelPolicy} {start : Bubble} {level : Nat} {code : List Item}
    (h : Draws p [.bubble level start.uid] code) (hs : p.scene.WellFormed)
    (hstart : p.scene.start? = some start) (hlabel : ∀ u ∈ p.scene.reachable, ¬ p.needsLabel u)
    (hbefore : ∀ b ∈ p.scene.bubbles, b.uid ∈ p.scene.reachable → ∀ c ∈ p.scene.links b.uid,
      p.comesBefore b.uid c.target) : p.scene.Unfolds [.bubble level start.uid] code := by
  obtain ⟨room, hroom⟩ := h
  exact LabelPolicy.unfolds_of_drawAll hs hlabel hbefore
    (fun _ _ _ ↦ LabelPolicy.unfolds_of_tree? hs hlabel hbefore) hroom (inside_start hstart level)

end StoryGraph
