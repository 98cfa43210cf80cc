import StoryGraph.Proofs.Scene.Lookup

/-!
# Outlets

The slots of all bubbles but those of a start are outlets: their links end at a jump where the target
needs a label, while the link of a start never does. In a well-formed scene every connection is the link
of one slot of one bubble, so that following all outlets takes every connection once that does not leave
the start.
-/

namespace StoryGraph

/-- The slots of a bubble whose links end at a jump where the target needs a label: all but those of a
start. -/
def Bubble.outlets (b : Bubble) : List Slot := if b.isStart then [] else b.slots

theorem Bubble.mem_outlets {b : Bubble} {slot : Slot} :
    slot ∈ b.outlets ↔ b.isStart = false ∧ slot ∈ b.slots := by
  cases h : b.isStart <;> simp [outlets, h]

theorem Bubble.nodup_outlets {b : Bubble} (h : b.uids.Nodup) : b.outlets.Nodup := by
  unfold outlets
  split
  · exact .nil
  · exact nodup_slots h

namespace Scene

/-- The outlets of the bubble of a uid. -/
def outlets (s : Scene) (uid : Uid) : List Slot :=
  match s.bubble? uid with
  | none => []
  | some b => b.outlets

/-- Whether a slot is an outlet of a bubble of the scene. -/
def IsOutlet (s : Scene) (slot : Slot) : Prop := ∃ b ∈ s.bubbles, slot ∈ b.outlets

/-- Whether the link of an outlet ends at a bubble. -/
def EndsOutlet (s : Scene) (uid : Uid) : Prop :=
  ∃ c ∈ s.connections, c.target = uid ∧ s.IsOutlet c.slot

/-- Whether a connection leaves a start. -/
def leavesStart (s : Scene) (c : Connection) : Bool := (s.bubble? c.source).any (·.isStart)

variable {s : Scene}

theorem outlets_of_bubble? {u : Uid} {b : Bubble} (h : s.bubble? u = some b) :
    s.outlets u = b.outlets := by simp [outlets, h]

namespace WellFormed

theorem leavesStart_iff (h : s.WellFormed) {c : Connection} {b : Bubble} (hb : b ∈ s.bubbles)
    (hslot : c.slot ∈ b.slots) : s.leavesStart c ↔ b.isStart := by
  constructor
  · intro hleaves
    unfold leavesStart at hleaves
    cases hb' : s.bubble? c.source with
    | none => simp [hb'] at hleaves
    | some b' =>
        have hmem : c.source ∈ b'.uids := uid_of_bubble? hb' ▸ b'.uid_mem_uids
        rw [h.eq_of_mem_uids hb (mem_of_bubble? hb') (Bubble.source_mem_uids hslot) hmem]
        simpa [hb'] using hleaves
  · intro hstart
    rw [Bubble.slots_of_isStart hstart, List.mem_singleton] at hslot
    simp [leavesStart, Connection.source, hslot, h.bubble?_uid hb, hstart]

/-- A connection leaves an outlet unless it leaves the start. -/
theorem isOutlet_iff (h : s.WellFormed) {c : Connection} (hc : c ∈ s.connections) :
    s.IsOutlet c.slot ↔ s.leavesStart c = false := by
  obtain ⟨b, hb, hslot⟩ := h.exists_source hc
  rw [← Bool.not_eq_true, h.leavesStart_iff hb hslot, Bool.not_eq_true]
  constructor
  · rintro ⟨b', hb', hslot'⟩
    obtain ⟨hstart, hslot'⟩ := Bubble.mem_outlets.mp hslot'
    rwa [h.eq_of_mem_slots hb hb' hslot hslot']
  · intro hstart
    exact ⟨b, hb, Bubble.mem_outlets.mpr ⟨hstart, hslot⟩⟩

/-- The links of all outlets are the connections that do not leave the start, each once. -/
theorem links_outlets_perm (h : s.WellFormed) :
    (s.bubbles.flatMap fun b ↦ b.outlets.filterMap s.link?).Perm
      (s.connections.filter fun c ↦ !s.leavesStart c) := by
  refine flatMap_perm_of_parts h.nodup_bubbles (h.nodup_connections.filter _) ?_ ?_ ?_
  · intro b hb
    apply (Bubble.nodup_outlets (h.nodup_uids_of_mem hb)).filterMap
    intro slot slot' c hc hc'
    rw [← slot_of_link? hc, slot_of_link? hc']
  · intro b hb b' hb' c hc hc'
    obtain ⟨slot, hslot, hlink⟩ := List.mem_filterMap.mp hc
    obtain ⟨slot', hslot', hlink'⟩ := List.mem_filterMap.mp hc'
    obtain rfl := (slot_of_link? hlink).symm.trans (slot_of_link? hlink')
    exact h.eq_of_mem_slots hb hb' (Bubble.mem_outlets.mp hslot).2 (Bubble.mem_outlets.mp hslot').2
  · intro c
    simp only [List.mem_filterMap, List.mem_filter, Bool.not_eq_true']
    constructor
    · rintro ⟨b, hb, slot, hslot, hlink⟩
      obtain ⟨hc, rfl⟩ := h.link?_eq_some_iff.mp hlink
      exact ⟨hc, (h.isOutlet_iff hc).mp ⟨b, hb, hslot⟩⟩
    · rintro ⟨hc, hleaves⟩
      obtain ⟨b, hb, hslot⟩ := (h.isOutlet_iff hc).mpr hleaves
      exact ⟨b, hb, c.slot, hslot, h.link?_eq_some_iff.mpr ⟨hc, rfl⟩⟩

end WellFormed

end Scene

end StoryGraph
