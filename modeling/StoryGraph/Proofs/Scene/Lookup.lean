import Mathlib.Data.List.Nodup
import Mathlib.Data.List.Lattice
import Mathlib.Data.List.Pairwise
import StoryGraph.Scene.WellFormed

/-!
# Looking things up in a well-formed scene

Every question to a scene is answered by the first that fits. In a well-formed scene no second one
fits, so that an answer can be read as a fact of the graph: `bubble?` finds a bubble exactly if it is
there under that uid, `owner?` the one choice that holds an option, and `link?` the one connection of a
slot.
-/

namespace StoryGraph

/-- What is the only one to pass a test is what `find?` finds. -/
theorem find?_eq_some_of_unique {α : Type} {q : α → Bool} {l : List α} {a : α} (ha : a ∈ l)
    (hq : q a) (hunique : ∀ b ∈ l, q b → b = a) : l.find? q = some a := by
  obtain ⟨b, hb⟩ := Option.isSome_iff_exists.mp (List.find?_isSome.mpr ⟨a, ha, hq⟩)
  rw [hb, hunique b (List.mem_of_find?_eq_some hb) (List.find?_some hb)]

theorem eq_of_mem_of_length_le_one {α : Type} {l : List α} (h : l.length ≤ 1) {a b : α} (ha : a ∈ l)
    (hb : b ∈ l) : a = b := by
  match l with
  | [] => simp at ha
  | [x] => exact (List.mem_singleton.mp ha).trans (List.mem_singleton.mp hb).symm
  | _ :: _ :: _ => simp at h

/-- Lists without repetition, no two of which have an element in common, make up together what their elements
are. -/
theorem flatMap_perm_of_parts {α β : Type} {xs : List α} {ys : List β} {f : α → List β} (hxs : xs.Nodup)
    (hys : ys.Nodup) (hparts : ∀ x ∈ xs, (f x).Nodup)
    (hunique : ∀ x ∈ xs, ∀ x' ∈ xs, ∀ y ∈ f x, y ∈ f x' → x = x')
    (hmem : ∀ y, (∃ x ∈ xs, y ∈ f x) ↔ y ∈ ys) : (xs.flatMap f).Perm ys := by
  have hdisjoint : xs.Pairwise fun x x' ↦ (f x).Disjoint (f x') := by
    apply hxs.pairwise_of_forall_ne
    intro x hx x' hx' hne y hy hy'
    exact hne (hunique x hx x' hx' y hy hy')
  refine (List.perm_ext_iff_of_nodup (List.nodup_flatMap.mpr ⟨hparts, hdisjoint⟩) hys).mpr ?_
  intro y
  rw [List.mem_flatMap, hmem]

/-! ## Slots of a bubble -/

namespace Bubble

theorem isStart_iff {b : Bubble} : b.isStart ↔ b.kind = .start := by
  cases h : b.kind <;> simp [isStart, type, BubbleKind.type, h]

theorem isStart_create {u : Uid} {kind : BubbleKind} (hkind : kind ≠ .start) :
    (create u kind).isStart = false := Bool.eq_false_iff.mpr (mt isStart_iff.mp hkind)

theorem isChoice_iff {b : Bubble} : b.isChoice ↔ ∃ options, b.kind = .choice options := by
  cases h : b.kind <;> simp [isChoice, type, BubbleKind.type, h]

/-- Only a choice has options. -/
theorem isChoice_of_mem_optionUids {b : Bubble} {u : Uid} (h : u ∈ b.optionUids) : b.isChoice := by
  cases hkind : b.kind <;>
    simp_all [isChoice_iff, optionUids, Bubble.options, BubbleKind.options]

/-- A choice is left by its options only. -/
theorem not_isChoice_of_mem_exits {b : Bubble} {e : Exit} (h : e ∈ b.exits) : ¬ b.isChoice := by
  rintro hchoice
  obtain ⟨options, hkind⟩ := isChoice_iff.mp hchoice
  simp [exits, BubbleKind.exits, hkind] at h

@[simp] theorem uid_mem_uids (b : Bubble) : b.uid ∈ b.uids := List.mem_cons_self

theorem mem_uids_of_mem_optionUids {b : Bubble} {u : Uid} (h : u ∈ b.optionUids) : u ∈ b.uids :=
  List.mem_cons_of_mem _ h

/-- The slots of a bubble in order: those of its options if it is a choice, else those of its exits. -/
def slots (b : Bubble) : List Slot :=
  if b.isChoice then b.optionUids.map (⟨·, .next⟩) else b.exits.map (⟨b.uid, ·⟩)

/-- The slots of a choice are those of its options. -/
theorem mem_slots_of_choice {b : Bubble} {options : List ChoiceOption} (h : b.kind = .choice options)
    {slot : Slot} : slot ∈ b.slots ↔ slot.exit = .next ∧ ∃ o ∈ options, o.uid = slot.source := by
  have hchoice : b.isChoice := isChoice_iff.mpr ⟨options, h⟩
  obtain ⟨source, exit⟩ := slot
  simp only [slots, if_pos hchoice, optionUids, Bubble.options, BubbleKind.options, h, List.map_map,
    List.mem_map, Function.comp_apply, Slot.mk.injEq]
  constructor
  · rintro ⟨o, ho, rfl, rfl⟩
    exact ⟨rfl, o, ho, rfl⟩
  · rintro ⟨rfl, o, ho, rfl⟩
    exact ⟨o, ho, rfl, rfl⟩

/-- A slot leaves the bubble itself or one of its options. -/
theorem source_mem_uids {b : Bubble} {slot : Slot} (h : slot ∈ b.slots) : slot.source ∈ b.uids := by
  unfold slots at h
  split at h
  · obtain ⟨u, hu, rfl⟩ := List.mem_map.mp h
    exact mem_uids_of_mem_optionUids hu
  · obtain ⟨e, -, rfl⟩ := List.mem_map.mp h
    exact b.uid_mem_uids

theorem nodup_exits (b : Bubble) : b.exits.Nodup := by
  cases h : b.kind <;> simp [exits, BubbleKind.exits, h]

theorem nodup_slots {b : Bubble} (h : b.uids.Nodup) : b.slots.Nodup := by
  unfold slots
  split
  · refine List.Nodup.map ?_ (List.nodup_cons.mp h).2
    intro u v huv
    exact congrArg Slot.source huv
  · refine List.Nodup.map ?_ b.nodup_exits
    intro e f hef
    exact congrArg Slot.exit hef

theorem slots_of_isStart {b : Bubble} (h : b.isStart) : b.slots = [⟨b.uid, .next⟩] := by
  have hkind := isStart_iff.mp h
  simp [slots, isChoice, type, BubbleKind.type, exits, BubbleKind.exits, hkind]

end Bubble

/-! ## Bubbles and options -/

namespace Scene

variable {s : Scene}

theorem mem_of_bubble? {u : Uid} {b : Bubble} (h : s.bubble? u = some b) : b ∈ s.bubbles :=
  List.mem_of_find?_eq_some h

theorem uid_of_bubble? {u : Uid} {b : Bubble} (h : s.bubble? u = some b) : b.uid = u := by
  simpa using List.find?_some h

theorem slots_of_bubble? {u : Uid} {b : Bubble} (hb : s.bubble? u = some b) : s.slots u = b.slots := by
  simp only [slots, hb, Bubble.slots, uid_of_bubble? hb]

theorem mem_links_iff_of_bubble? {u : Uid} {b : Bubble} (hb : s.bubble? u = some b) {c : Connection} :
    c ∈ s.links u ↔ ∃ slot ∈ b.slots, s.link? slot = some c := by
  rw [links, slots_of_bubble? hb, List.mem_filterMap]

theorem mem_of_owner? {o : Uid} {b : Bubble} (h : s.owner? o = some b) : b ∈ s.bubbles :=
  List.mem_of_find?_eq_some h

theorem mem_optionUids_of_owner? {o : Uid} {b : Bubble} (h : s.owner? o = some b) :
    o ∈ b.optionUids := by
  simpa using List.find?_some h

theorem mem_uids {u : Uid} : u ∈ s.uids ↔ ∃ b ∈ s.bubbles, u ∈ b.uids := List.mem_flatMap

namespace WellFormed

/-- A uid belongs to one bubble only. -/
theorem eq_of_mem_uids (h : s.WellFormed) {b b' : Bubble} (hb : b ∈ s.bubbles) (hb' : b' ∈ s.bubbles)
    {u : Uid} (hu : u ∈ b.uids) (hu' : u ∈ b'.uids) : b = b' := by
  by_contra hne
  have hdisj := (List.nodup_flatMap.mp h.nodup_uids).2
  have : Std.Symm (Function.onFun List.Disjoint Bubble.uids) := ⟨fun _ _ hxy ↦ List.Disjoint.symm hxy⟩
  exact hdisj.forall hb hb' hne hu hu'

theorem nodup_uids_of_mem (h : s.WellFormed) {b : Bubble} (hb : b ∈ s.bubbles) : b.uids.Nodup :=
  (List.nodup_flatMap.mp h.nodup_uids).1 b hb

theorem bubble?_eq_some_iff (h : s.WellFormed) {u : Uid} {b : Bubble} :
    s.bubble? u = some b ↔ b ∈ s.bubbles ∧ b.uid = u := by
  constructor
  · exact fun hb ↦ ⟨mem_of_bubble? hb, uid_of_bubble? hb⟩
  · rintro ⟨hb, rfl⟩
    refine find?_eq_some_of_unique hb (by simp) ?_
    intro b' hb' huid
    have huid : b'.uid = b.uid := by simpa using huid
    exact h.eq_of_mem_uids hb' hb (huid ▸ b'.uid_mem_uids) b.uid_mem_uids

theorem bubble?_uid (h : s.WellFormed) {b : Bubble} (hb : b ∈ s.bubbles) :
    s.bubble? b.uid = some b := h.bubble?_eq_some_iff.mpr ⟨hb, rfl⟩

/-- An option is no bubble. -/
theorem bubble?_of_mem_optionUids (h : s.WellFormed) {b : Bubble} (hb : b ∈ s.bubbles) {o : Uid}
    (ho : o ∈ b.optionUids) : s.bubble? o = none := by
  apply Option.eq_none_iff_forall_ne_some.mpr
  intro b' hb'
  obtain ⟨hmem, rfl⟩ := h.bubble?_eq_some_iff.mp hb'
  have heq := h.eq_of_mem_uids hb hmem (Bubble.mem_uids_of_mem_optionUids ho) b'.uid_mem_uids
  subst heq
  exact (List.nodup_cons.mp (h.nodup_uids_of_mem hb)).1 ho

theorem owner?_eq_some_iff (h : s.WellFormed) {o : Uid} {b : Bubble} :
    s.owner? o = some b ↔ b ∈ s.bubbles ∧ o ∈ b.optionUids := by
  constructor
  · exact fun hb ↦ ⟨mem_of_owner? hb, mem_optionUids_of_owner? hb⟩
  · rintro ⟨hb, ho⟩
    refine find?_eq_some_of_unique hb (by simpa using ho) ?_
    intro b' hb' ho'
    have ho' : o ∈ b'.optionUids := by simpa using ho'
    exact h.eq_of_mem_uids hb' hb (Bubble.mem_uids_of_mem_optionUids ho')
      (Bubble.mem_uids_of_mem_optionUids ho)

theorem nodup_bubbles (h : s.WellFormed) : s.bubbles.Nodup := by
  refine (List.nodup_flatMap.mp h.nodup_uids).2.imp fun {b b'} hdisj heq ↦ ?_
  exact hdisj b.uid_mem_uids (heq ▸ b.uid_mem_uids)

/-- No two bubbles have one uid. -/
theorem nodup_bubbleUids (h : s.WellFormed) : (s.bubbles.map (·.uid)).Nodup := by
  refine List.Nodup.map_on ?_ h.nodup_bubbles
  intro b hb b' hb' huid
  exact h.eq_of_mem_uids hb hb' b.uid_mem_uids (huid ▸ b'.uid_mem_uids)

/-! ## The start -/

theorem exists_start (h : s.WellFormed) :
    ∃ start, s.start? = some start ∧ start ∈ s.bubbles ∧ start.isStart := by
  have hpos : 0 < s.bubbles.countP (·.isStart) := by rw [h.start_unique]; exact Nat.one_pos
  obtain ⟨b, hb, hstart⟩ := List.countP_pos_iff.mp hpos
  obtain ⟨start, hfind⟩ := Option.isSome_iff_exists.mp (List.find?_isSome.mpr ⟨b, hb, hstart⟩)
  exact ⟨start, hfind, List.mem_of_find?_eq_some hfind, List.find?_some hfind⟩

theorem eq_of_isStart (h : s.WellFormed) {b b' : Bubble} (hb : b ∈ s.bubbles) (hb' : b' ∈ s.bubbles)
    (hstart : b.isStart) (hstart' : b'.isStart) : b = b' := by
  have hone := h.start_unique
  rw [List.countP_eq_length_filter, List.length_eq_one_iff] at hone
  obtain ⟨a, ha⟩ := hone
  have hall : ∀ x ∈ s.bubbles, x.isStart → x = a := fun x hx hs ↦ by
    have hmem : x ∈ s.bubbles.filter (·.isStart) := List.mem_filter.mpr ⟨hx, hs⟩
    rw [ha] at hmem
    exact List.mem_singleton.mp hmem
  rw [hall b hb hstart, hall b' hb' hstart']

theorem start?_eq_some_iff (h : s.WellFormed) {b : Bubble} :
    s.start? = some b ↔ b ∈ s.bubbles ∧ b.isStart := by
  obtain ⟨start, hfind, hmem, hstart⟩ := h.exists_start
  rw [hfind]
  constructor
  · rintro ⟨⟩
    exact ⟨hmem, hstart⟩
  · rintro ⟨hb, hb'⟩
    rw [h.eq_of_isStart hmem hb hstart hb']

theorem isStart_iff_uid_eq (h : s.WellFormed) {start : Bubble} (hstart : s.start? = some start)
    {b : Bubble} (hb : b ∈ s.bubbles) : b.isStart ↔ b.uid = start.uid := by
  obtain ⟨hmem, hisStart⟩ := h.start?_eq_some_iff.mp hstart
  constructor
  · intro hb'
    rw [h.eq_of_isStart hb hmem hb' hisStart]
  · intro huid
    rwa [h.eq_of_mem_uids hb hmem b.uid_mem_uids (huid ▸ start.uid_mem_uids)]

/-! ## Connections -/

theorem link?_eq_some_iff (h : s.WellFormed) {slot : Slot} {c : Connection} :
    s.link? slot = some c ↔ c ∈ s.connections ∧ c.slot = slot := by
  constructor
  · exact fun hc ↦ ⟨mem_connections_of_link? hc, slot_of_link? hc⟩
  · rintro ⟨hc, rfl⟩
    refine find?_eq_some_of_unique hc (by simp) ?_
    intro c' hc' hslot
    exact List.inj_on_of_nodup_map h.nodup_slots hc' hc (by simpa using hslot)

/-- A connection ends at a bubble that is no start. -/
theorem exists_target (h : s.WellFormed) {c : Connection} (hc : c ∈ s.connections) :
    ∃ b, s.bubble? c.target = some b ∧ b ∈ s.bubbles ∧ b.isStart = false := by
  have hresolves := h.resolves c hc
  simp only [Scene.resolves, isTarget, Bool.and_eq_true] at hresolves
  cases hb : s.bubble? c.target with
  | none => simp [hb] at hresolves
  | some b => exact ⟨b, rfl, mem_of_bubble? hb, by simpa [hb] using hresolves.2⟩

/-- No connection ends at a start. -/
theorem target_ne_of_isStart (h : s.WellFormed) {c : Connection} (hc : c ∈ s.connections) {b : Bubble}
    (hb : b ∈ s.bubbles) (hstart : b.isStart) : c.target ≠ b.uid := by
  intro heq
  obtain ⟨b', hb', -, hno⟩ := h.exists_target hc
  rw [heq, h.bubble?_uid hb] at hb'
  obtain rfl := Option.some.inj hb'
  simp [hstart] at hno

theorem exists_target_of_link? (h : s.WellFormed) {slot : Slot} {c : Connection}
    (hc : s.link? slot = some c) :
    ∃ b, s.bubble? c.target = some b ∧ b ∈ s.bubbles ∧ b.isStart = false :=
  h.exists_target (mem_connections_of_link? hc)

/-- A slot of a scene is a slot of one of its bubbles. -/
theorem hasSlot_iff (h : s.WellFormed) {slot : Slot} :
    s.hasSlot slot ↔ ∃ b ∈ s.bubbles, slot ∈ b.slots := by
  obtain ⟨source, exit⟩ := slot
  constructor
  · intro hslot
    unfold hasSlot at hslot
    cases hb : s.bubble? source with
    | some b =>
        have hexit : exit ∈ b.exits := by simpa [hb] using hslot
        refine ⟨b, mem_of_bubble? hb, ?_⟩
        rw [Bubble.slots, if_neg (Bubble.not_isChoice_of_mem_exits hexit), List.mem_map]
        exact ⟨exit, hexit, by rw [uid_of_bubble? hb]⟩
    | none =>
        obtain ⟨hexit, howner⟩ : exit = .next ∧ (s.owner? source).isSome := by simpa [hb] using hslot
        obtain ⟨b, hb'⟩ := Option.isSome_iff_exists.mp howner
        obtain ⟨hmem, ho⟩ := h.owner?_eq_some_iff.mp hb'
        refine ⟨b, hmem, ?_⟩
        rw [Bubble.slots, if_pos (Bubble.isChoice_of_mem_optionUids ho), List.mem_map]
        exact ⟨source, ho, by rw [hexit]⟩
  · rintro ⟨b, hb, hslot⟩
    unfold Bubble.slots at hslot
    unfold hasSlot
    split at hslot
    · obtain ⟨o, ho, heq⟩ := List.mem_map.mp hslot
      obtain ⟨rfl, rfl⟩ := Slot.mk.inj heq
      have howner := h.owner?_eq_some_iff.mpr ⟨hb, ho⟩
      simp [h.bubble?_of_mem_optionUids hb ho, howner]
    · obtain ⟨e, he, heq⟩ := List.mem_map.mp hslot
      obtain ⟨rfl, rfl⟩ := Slot.mk.inj heq
      simp [h.bubble?_uid hb, he]

/-- Links may end at the bubbles that are no start. -/
theorem isTarget_iff (h : s.WellFormed) {u : Uid} :
    s.isTarget u ↔ ∃ b ∈ s.bubbles, b.uid = u ∧ b.isStart = false := by
  constructor
  · intro htarget
    unfold isTarget at htarget
    cases hb : s.bubble? u with
    | none => simp [hb] at htarget
    | some b => exact ⟨b, mem_of_bubble? hb, uid_of_bubble? hb, by simpa [hb] using htarget⟩
  · rintro ⟨b, hb, rfl, hno⟩
    rw [isTarget, h.bubble?_uid hb]
    simpa using hno

/-- A connection leaves a slot of a bubble. -/
theorem exists_source (h : s.WellFormed) {c : Connection} (hc : c ∈ s.connections) :
    ∃ b ∈ s.bubbles, c.slot ∈ b.slots := by
  have hresolves := h.resolves c hc
  simp only [Scene.resolves, Bool.and_eq_true] at hresolves
  exact h.hasSlot_iff.mp hresolves.1

theorem nodup_connections (h : s.WellFormed) : s.connections.Nodup := .of_map _ h.nodup_ids

/-- A slot belongs to one bubble only. -/
theorem eq_of_mem_slots (h : s.WellFormed) {b b' : Bubble} (hb : b ∈ s.bubbles)
    (hb' : b' ∈ s.bubbles) {slot : Slot} (hslot : slot ∈ b.slots) (hslot' : slot ∈ b'.slots) :
    b = b' :=
  h.eq_of_mem_uids hb hb' (Bubble.source_mem_uids hslot) (Bubble.source_mem_uids hslot')

end WellFormed

end Scene

end StoryGraph
