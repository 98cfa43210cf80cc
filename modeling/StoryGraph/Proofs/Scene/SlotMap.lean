import Mathlib.Logic.Function.Basic
import StoryGraph.Proofs.Scene.Edit
import StoryGraph.Proofs.Scene.Repair

/-!
# Connections as a map from slots to bubbles

A slot leads to one bubble or to none, so that the connections of a scene are a partial map from slots to
bubbles, and edits of the list are edits of that map: a link is put into its slot, links are taken out of
the slots that go, and nothing happens to any other slot. Every edit keeps of the list what leaves other
slots, as it is and in its order; the lemmas say for each edit which slots these are.
-/

namespace StoryGraph

/-- Where one element at most passes a test, to erase the first is to erase all. -/
theorem eraseP_eq_filter_of_unique {α : Type} {q : α → Bool} {xs : List α} (h : xs.countP q ≤ 1) :
    xs.eraseP q = xs.filter (!q ·) := by
  induction xs with
  | nil => rfl
  | cons x xs ih =>
      by_cases hx : q x
      · have hnone : xs.countP q = 0 := by
          rw [List.countP_cons_of_pos hx] at h
          omega
        have hall : ∀ y ∈ xs, !q y := fun y hy ↦ by simpa using List.countP_eq_zero.mp hnone y hy
        rw [List.eraseP_cons_of_pos hx, List.filter_cons_of_neg (by simp [hx]), List.filter_eq_self.mpr hall]
      · rw [List.eraseP_cons_of_neg hx, List.filter_cons_of_pos (by simp [hx]),
          ih (by rwa [List.countP_cons_of_neg hx] at h)]

namespace Scene

/-- The bubble that a slot leads to. -/
def target? (s : Scene) (slot : Slot) : Option Uid := (s.link? slot).map (·.target)

variable {s s' : Scene}

theorem WellFormed.target?_slot (h : s.WellFormed) {c : Connection} (hc : c ∈ s.connections) :
    s.target? c.slot = some c.target := by
  rw [target?, h.link?_eq_some_iff.mpr ⟨hc, rfl⟩]
  rfl

theorem target?_congr (h : s'.connections = s.connections) : s'.target? = s.target? := by
  funext slot
  rw [target?, link?, h]
  rfl

/-! ## Slots that are given up -/

/-- Where the links of some slots go, these slots lead nowhere and the others to where they led. -/
theorem target?_filter (gone : Slot → Prop) [DecidablePred gone]
    (h : s'.connections = s.connections.filter fun c ↦ ¬ gone c.slot) (slot : Slot) :
    s'.target? slot = if gone slot then none else s.target? slot := by
  rw [target?, link?, h, List.find?_filter]
  split
  · rename_i hgone
    rw [Option.map_eq_none_iff, List.find?_eq_none]
    rintro c -
    simp only [decide_eq_true_eq, not_and]
    rintro hkept rfl
    exact hkept hgone
  · rename_i hkept
    rw [target?, link?]
    congr 2
    funext c
    by_cases hslot : c.slot = slot
    · simp [hslot, hkept]
    · simp [hslot]

/-- Where the link of one slot goes, the map loses that slot. -/
theorem target?_erase {slot : Slot} (h : s'.connections = s.connections.filter (·.slot ≠ slot)) :
    s'.target? = Function.update s.target? slot none := by
  funext slot'
  rw [target?_filter (· = slot) h, Function.update_apply]

/-- A connection behind the others leads on from its slot, where no other leaves it. -/
theorem target?_append {c : Connection} (h : s'.connections = s.connections ++ [c])
    (hfree : s.target? c.slot = none) : s'.target? = Function.update s.target? c.slot (some c.target) := by
  funext slot
  rw [Function.update_apply, target?, link?, h, List.find?_append, Option.map_or]
  show (s.target? slot).or _ = _
  by_cases hslot : slot = c.slot
  · subst hslot
    simp [hfree]
  · rw [if_neg hslot]
    simp [Ne.symm hslot]

/-! ## Which slots an edit gives up -/

namespace WellFormed

variable (h : s.WellFormed)

include h

theorem countP_id_le_one (id : ConnectionId) : s.connections.countP (·.id = id) ≤ 1 := by
  have hcount := List.nodup_iff_count_le_one.mp h.nodup_ids id
  rwa [List.count, List.countP_map] at hcount

/-- To remove the connection of an id is to give up its slot. -/
theorem eraseP_id_eq {c : Connection} (hc : c ∈ s.connections) :
    s.connections.eraseP (·.id = c.id) = s.connections.filter (·.slot ≠ c.slot) := by
  rw [eraseP_eq_filter_of_unique (h.countP_id_le_one c.id)]
  refine List.filter_congr ?_
  intro c' hc'
  have hid : c'.id = c.id ↔ c'.slot = c.slot := by
    constructor
    · intro heq
      rw [List.inj_on_of_nodup_map h.nodup_ids hc' hc heq]
    · intro heq
      rw [List.inj_on_of_nodup_map h.nodup_slots hc' hc heq]
  simp [hid]

/-- What leaves an option leaves it by the one slot that it has. -/
theorem source_eq_iff {b : Bubble} (hb : b ∈ s.bubbles) {o : Uid} (ho : o ∈ b.optionUids) {c : Connection}
    (hc : c ∈ s.connections) : c.source = o ↔ c.slot = ⟨o, .next⟩ := by
  constructor
  · rintro rfl
    obtain ⟨b', hb', hslot⟩ := h.exists_source hc
    obtain rfl := h.eq_of_mem_uids hb hb' (Bubble.mem_uids_of_mem_optionUids ho)
      (Bubble.source_mem_uids hslot)
    obtain ⟨options, hkind⟩ := Bubble.isChoice_iff.mp (Bubble.isChoice_of_mem_optionUids ho)
    have hexit := ((Bubble.mem_slots_of_choice hkind).mp hslot).1
    rw [← hexit]
    rfl
  · intro hslot
    exact congrArg Slot.source hslot

end WellFormed

end Scene

/-! ## Edits of the map -/

/-- `d.TracksSlots`: what edits of a draft do to the map of its slots, and which of its connections they
keep. -/
structure Draft.TracksSlots (d : Draft) : Prop where
  /-- A new link is put into its slot, in the place of what was there. -/
  connect : ∀ slot target sourceAnchor targetAnchor id s',
    d.scene.connect slot target sourceAnchor targetAnchor = .ok (id, s') →
    s'.target? = Function.update d.scene.target? slot (some target) ∧
      s'.connections = d.scene.connections.filter (·.slot ≠ slot) ++
        [⟨id, slot, target, sourceAnchor, targetAnchor⟩]
  /-- The slot goes that the removed connection has left. -/
  disconnect : ∀ id c s', d.scene.disconnect id = .ok (c, s') →
    c ∈ d.scene.connections ∧ c.id = id ∧
      s'.target? = Function.update d.scene.target? c.slot none ∧
      s'.connections = d.scene.connections.filter (·.slot ≠ c.slot)
  /-- The one slot of the option goes. -/
  removeOption : ∀ uid o d', d.removeOption uid = (.ok o, d') →
    o.uid = uid ∧ d'.scene.target? = Function.update d.scene.target? ⟨uid, .next⟩ none ∧
      d'.scene.connections = d.scene.connections.filter (·.slot ≠ ⟨uid, .next⟩)
  /-- The slots of the bubble go, those of its options, and every slot that led to it. -/
  removeBubble : ∀ uid b d', d.removeBubble uid = .ok (b, d') →
    b ∈ d.scene.bubbles ∧ b.uid = uid ∧
      (∀ slot, d'.scene.target? slot =
        if slot.source ∈ b.uids ∨ d.scene.target? slot = some uid then none else d.scene.target? slot) ∧
      d'.scene.connections = d.scene.connections.filter fun c ↦
        ¬ (c.slot.source ∈ b.uids ∨ d.scene.target? c.slot = some uid)
  /-- Where a bubble or an option is added no slot changes. -/
  addBubble : ∀ kind uid d', d.addBubble kind = .ok (uid, d') →
    d'.scene.target? = d.scene.target? ∧ d'.scene.connections = d.scene.connections
  insertBubble : ∀ b d', d.insertBubble b = .ok d' →
    d'.scene.target? = d.scene.target? ∧ d'.scene.connections = d.scene.connections
  addOption : ∀ choice text uid d', d.addOption choice text = .ok (uid, d') →
    d'.scene.target? = d.scene.target? ∧ d'.scene.connections = d.scene.connections
  /-- There is nothing to repair. -/
  repair : d.scene.repair.1.target? = d.scene.target? ∧
    d.scene.repair.1.connections = d.scene.connections

namespace Scene

variable {s s' : Scene}

theorem target?_connect {slot : Slot} {target : Uid} {sourceAnchor targetAnchor : Anchor} {id : ConnectionId}
    (hconnect : s.connect slot target sourceAnchor targetAnchor = .ok (id, s')) :
    s'.target? = Function.update s.target? slot (some target) ∧
      s'.connections = s.connections.filter (·.slot ≠ slot) ++
        [⟨id, slot, target, sourceAnchor, targetAnchor⟩] := by
  obtain ⟨-, -, -, rfl⟩ := of_connect hconnect
  refine ⟨?_, rfl⟩
  have hfreed : (s.withoutLink slot).target? = Function.update s.target? slot none := target?_erase rfl
  rw [target?_append (s := s.withoutLink slot) rfl (by rw [hfreed, Function.update_self]), hfreed,
    Function.update_idem]

theorem WellFormed.target?_disconnect (h : s.WellFormed) {id : ConnectionId} {c : Connection}
    (hremove : s.disconnect id = .ok (c, s')) :
    c ∈ s.connections ∧ c.id = id ∧ s'.target? = Function.update s.target? c.slot none ∧
      s'.connections = s.connections.filter (·.slot ≠ c.slot) := by
  unfold disconnect at hremove
  split at hremove
  · contradiction
  · rename_i c' hfind
    obtain ⟨rfl, rfl⟩ := Prod.mk.inj (Except.ok.inj hremove)
    have hmem := List.mem_of_find?_eq_some hfind
    obtain rfl : c'.id = id := by simpa using List.find?_some hfind
    have hkept := h.eraseP_id_eq hmem
    exact ⟨hmem, rfl, target?_erase hkept, hkept⟩

end Scene

namespace Draft

variable {d d' : Draft}

theorem target?_removeOption (h : d.scene.WellFormed) {uid : Uid} {o : ChoiceOption}
    (hremove : d.removeOption uid = (.ok o, d')) :
    o.uid = uid ∧ d'.scene.target? = Function.update d.scene.target? ⟨uid, .next⟩ none ∧
      d'.scene.connections = d.scene.connections.filter (·.slot ≠ ⟨uid, .next⟩) := by
  unfold Draft.removeOption at hremove
  split at hremove
  · exact nomatch (Prod.mk.inj hremove).1
  · rename_i owner howner
    obtain ⟨hmem, ho⟩ := h.owner?_eq_some_iff.mp howner
    dsimp only at hremove
    split at hremove
    · exact nomatch (Prod.mk.inj hremove).1
    · rename_i removed hremoved
      obtain ⟨hok, rfl⟩ := Prod.mk.inj hremove
      obtain rfl := Except.ok.inj hok
      obtain ⟨b, -, hfind⟩ := Option.bind_eq_some_iff.mp hremoved
      have hkept : d.scene.connections.filter (·.source ≠ uid) =
          d.scene.connections.filter (·.slot ≠ ⟨uid, .next⟩) := by
        refine List.filter_congr fun c hc ↦ ?_
        simp [h.source_eq_iff hmem ho hc]
      exact ⟨by simpa using List.find?_some hfind, Scene.target?_erase hkept, hkept⟩

theorem target?_removeBubble (h : d.scene.WellFormed) {uid : Uid} {b : Bubble}
    (hremove : d.removeBubble uid = .ok (b, d')) :
    b ∈ d.scene.bubbles ∧ b.uid = uid ∧
      (∀ slot, d'.scene.target? slot =
        if slot.source ∈ b.uids ∨ d.scene.target? slot = some uid then none else d.scene.target? slot) ∧
      d'.scene.connections = d.scene.connections.filter fun c ↦
        ¬ (c.slot.source ∈ b.uids ∨ d.scene.target? c.slot = some uid) := by
  unfold Draft.removeBubble at hremove
  split at hremove
  · contradiction
  · rename_i b' hb
    split at hremove
    · contradiction
    · obtain ⟨rfl, rfl⟩ := Prod.mk.inj (Except.ok.inj hremove)
      have hkept : (d.scene.connections.filter fun c ↦ c.source ∉ b'.uids ∧ c.target ≠ uid) =
          d.scene.connections.filter fun c ↦
            ¬ (c.slot.source ∈ b'.uids ∨ d.scene.target? c.slot = some uid) := by
        refine List.filter_congr fun c hc ↦ ?_
        simp only [h.target?_slot hc, Option.some.injEq, not_or]
        rfl
      exact ⟨Scene.mem_of_bubble? hb, Scene.uid_of_bubble? hb,
        Scene.target?_filter (fun slot ↦ slot.source ∈ b'.uids ∨ d.scene.target? slot = some uid)
          hkept, hkept⟩

theorem connections_addBubble {kind : BubbleKind} {uid : Uid} (hadd : d.addBubble kind = .ok (uid, d')) :
    d'.scene.connections = d.scene.connections := by
  obtain ⟨-, hadd⟩ := of_check hadd
  obtain ⟨_, -, hadd⟩ := bind_eq_ok.mp hadd
  obtain ⟨_, -, hadd⟩ := bind_eq_ok.mp hadd
  obtain ⟨-, rfl⟩ := Prod.mk.inj (Except.ok.inj hadd)
  rfl

theorem connections_insertBubble {b : Bubble} (hadd : d.insertBubble b = .ok d') :
    d'.scene.connections = d.scene.connections := by
  obtain ⟨-, hadd⟩ := of_check hadd
  obtain ⟨_, -, hadd⟩ := bind_eq_ok.mp hadd
  obtain rfl := Except.ok.inj hadd
  rfl

theorem connections_addOption {choice uid : Uid} {text : String}
    (hadd : d.addOption choice text = .ok (uid, d')) : d'.scene.connections = d.scene.connections := by
  unfold Draft.addOption at hadd
  split at hadd
  · contradiction
  · obtain ⟨-, hadd⟩ := of_check hadd
    obtain ⟨_, -, hadd⟩ := bind_eq_ok.mp hadd
    obtain ⟨-, rfl⟩ := Prod.mk.inj (Except.ok.inj hadd)
    rfl

/-- Whatever edit of a well-formed scene succeeds, it is an edit of the map from slots to bubbles that
changes the slots it is about and no others, and the connections that it keeps stay as they are and in
their order. -/
theorem tracksSlots_of_wellFormed (h : d.scene.WellFormed) : d.TracksSlots where
  connect _ _ _ _ _ _ hconnect := Scene.target?_connect hconnect
  disconnect _ _ _ hremove := h.target?_disconnect hremove
  removeOption _ _ _ hremove := target?_removeOption h hremove
  removeBubble _ _ _ hremove := target?_removeBubble h hremove
  addBubble _ _ _ hadd :=
    ⟨Scene.target?_congr (connections_addBubble hadd), connections_addBubble hadd⟩
  insertBubble _ _ hadd :=
    ⟨Scene.target?_congr (connections_insertBubble hadd), connections_insertBubble hadd⟩
  addOption _ _ _ _ hadd :=
    ⟨Scene.target?_congr (connections_addOption hadd), connections_addOption hadd⟩
  repair := by
    rw [h.repair_eq]
    exact ⟨rfl, rfl⟩

/-- Both answers of a choice lead to one story, which leads back to the choice, and a condition leads to
itself. -/
def crossroads : Draft where
  scene :=
    { name := "crossroads"
      bubbles :=
        [.create ⟨0⟩ .start, .create ⟨1⟩ (.choice [⟨⟨2⟩, "left"⟩, ⟨⟨3⟩, "right"⟩]),
          .create ⟨4⟩ (.story "a field"), .create ⟨6⟩ (.condition "night")]
      connections :=
        [⟨⟨0⟩, ⟨⟨0⟩, .next⟩, ⟨1⟩, .south, .north⟩, ⟨⟨1⟩, ⟨⟨2⟩, .next⟩, ⟨4⟩, .south, .north⟩,
          ⟨⟨4⟩, ⟨⟨3⟩, .next⟩, ⟨4⟩, .east, .north⟩, ⟨⟨2⟩, ⟨⟨4⟩, .next⟩, ⟨1⟩, .west, .west⟩,
          ⟨⟨3⟩, ⟨⟨6⟩, .whenTrue⟩, ⟨6⟩, .east, .east⟩] }
  pool := ⟨[⟨0⟩, ⟨1⟩, ⟨2⟩, ⟨3⟩, ⟨4⟩, ⟨6⟩], by decide⟩

theorem tracksSlots_crossroads :
    crossroads.scene.WellFormed ∧ crossroads.TracksSlots ∧
      (crossroads.scene.connect ⟨⟨3⟩, .next⟩ ⟨6⟩ .south .north).toOption.isSome ∧
      (crossroads.scene.disconnect ⟨4⟩).toOption.isSome ∧
      (crossroads.removeOption ⟨2⟩).1.toOption.isSome ∧
      (crossroads.removeBubble ⟨4⟩).toOption.isSome ∧ (crossroads.removeBubble ⟨6⟩).toOption.isSome ∧
      (crossroads.addBubble (.choice [⟨⟨9⟩, "wait"⟩])).toOption.isSome ∧
      (crossroads.insertBubble (.create ⟨8⟩ (.story "a mill"))).toOption.isSome ∧
      (crossroads.addOption ⟨1⟩ "back").toOption.isSome := by
  have hwf : crossroads.scene.WellFormed := by decide
  exact ⟨hwf, tracksSlots_of_wellFormed hwf, by decide, by decide, by decide, by decide, by decide,
    by decide, by decide, by decide⟩

end Draft

end StoryGraph
