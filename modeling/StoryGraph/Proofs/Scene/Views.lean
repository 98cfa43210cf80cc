import StoryGraph.Proofs.Scene.Traversal

/-!
# Outgoing and incoming connections

A scene holds one list of connections, and is asked for those that leave a bubble and for those that end at one.
In a well-formed scene both views show each connection once: it leaves one bubble, in the place of its slot
among the slots of that bubble that are linked, and it ends at one bubble.
-/

namespace StoryGraph

/-- The slots of a bubble, kind by kind, in the order in which links are told. -/
def Bubble.slotsByKind (b : Bubble) : List Slot :=
  match b.kind with
  | .start | .story _ | .action _ => [⟨b.uid, .next⟩]
  | .condition _ => [⟨b.uid, .whenTrue⟩, ⟨b.uid, .whenFalse⟩]
  | .choice options => options.map fun o ↦ ⟨o.uid, .next⟩

theorem Bubble.slots_eq_slotsByKind (b : Bubble) : b.slots = b.slotsByKind := by
  unfold slots slotsByKind isChoice type exits optionUids Bubble.options
  cases b.kind <;> simp [BubbleKind.type, BubbleKind.exits, BubbleKind.options]

namespace Scene

variable {s : Scene}

theorem link?_isSome_iff {slot : Slot} :
    (s.link? slot).isSome ↔ slot ∈ s.connections.map (·.slot) := by
  simp [link?, List.find?_isSome]

/-- The slots that the links of a uid leave are those of its slots that are linked. -/
theorem map_slot_links (s : Scene) (u : Uid) :
    (s.links u).map (·.slot) = (s.slots u).filter (· ∈ s.connections.map (·.slot)) := by
  unfold links
  induction s.slots u with
  | nil => rfl
  | cons slot slots ih =>
      cases hlink : s.link? slot with
      | none =>
          have hnot : slot ∉ s.connections.map (·.slot) := by simp [← link?_isSome_iff, hlink]
          rw [List.filterMap_cons_none hlink, ih, List.filter_cons_of_neg (by simpa using hnot)]
      | some c =>
          have hmem : slot ∈ s.connections.map (·.slot) := by simp [← link?_isSome_iff, hlink]
          rw [List.filterMap_cons_some hlink, List.map_cons, ih, slot_of_link? hlink,
            List.filter_cons_of_pos (by simpa using hmem)]

namespace WellFormed

theorem nodup_links (h : s.WellFormed) {b : Bubble} (hb : b ∈ s.bubbles) : (s.links b.uid).Nodup := by
  refine .of_map (·.slot) ?_
  rw [map_slot_links, slots_of_bubble? (h.bubble?_uid hb)]
  exact (Bubble.nodup_slots (h.nodup_uids_of_mem hb)).filter _

/-- The links of all bubbles are the connections, each once. -/
theorem flatMap_links_perm (h : s.WellFormed) :
    (s.bubbles.flatMap fun b ↦ s.links b.uid).Perm s.connections := by
  refine flatMap_perm_of_parts h.nodup_bubbles h.nodup_connections (fun b hb ↦ h.nodup_links hb) ?_ ?_
  · intro b hb b' hb' c hc hc'
    exact h.eq_of_mem_links hb hb' hc hc'
  · intro c
    constructor
    · rintro ⟨b, -, hc⟩
      exact mem_connections_of_mem_links hc
    · exact h.exists_mem_links

/-- What ends at all bubbles are the connections, each once. -/
theorem flatMap_incoming_perm (h : s.WellFormed) :
    (s.bubbles.flatMap fun b ↦ s.incoming b.uid).Perm s.connections := by
  refine flatMap_perm_of_parts h.nodup_bubbles h.nodup_connections ?_ ?_ ?_
  · intro b _
    exact h.nodup_connections.filter _
  · intro b hb b' hb' c hc hc'
    have huid : b.uid = b'.uid := (mem_incoming.mp hc).2.symm.trans (mem_incoming.mp hc').2
    exact h.eq_of_mem_uids hb hb' b.uid_mem_uids (huid ▸ b'.uid_mem_uids)
  · intro c
    constructor
    · rintro ⟨b, -, hc⟩
      exact (mem_incoming.mp hc).1
    · intro hc
      obtain ⟨b, htarget, hb, -⟩ := h.exists_target hc
      exact ⟨b, hb, mem_incoming.mpr ⟨hc, (uid_of_bubble? htarget).symm⟩⟩

/-- Outgoing and incoming connections agree with those of the scene. No connection is there twice; the links of
all bubbles taken together are the connections, and so is what ends at all bubbles. A connection is a link of
the bubble that its source lies in, and of no other, and it comes in at its target, and nowhere else. The links
of a bubble stand in the order of its slots: none is left out that a connection leaves. -/
theorem links_and_incoming_agree (h : s.WellFormed) :
    s.connections.Nodup ∧ (s.bubbles.flatMap fun b ↦ s.links b.uid).Perm s.connections ∧
      (s.bubbles.flatMap fun b ↦ s.incoming b.uid).Perm s.connections ∧
      (∀ c ∈ s.connections, ∃ b ∈ s.bubbles, s.container? c.source = some b.uid ∧
        ∀ b' ∈ s.bubbles, c ∈ s.links b'.uid ↔ b' = b) ∧
      (∀ c ∈ s.connections, ∃ b ∈ s.bubbles, c.target = b.uid ∧
        ∀ b' ∈ s.bubbles, c ∈ s.incoming b'.uid ↔ b' = b) ∧
      ∀ b ∈ s.bubbles, (s.links b.uid).map (·.slot) =
        b.slotsByKind.filter (· ∈ s.connections.map (·.slot)) := by
  refine ⟨h.nodup_connections, h.flatMap_links_perm, h.flatMap_incoming_perm, ?_, ?_, ?_⟩
  · intro c hc
    obtain ⟨b, hb, hlink⟩ := h.exists_mem_links hc
    refine ⟨b, hb, h.container?_of_mem_links hb hlink, ?_⟩
    intro b' hb'
    constructor
    · exact fun hlink' ↦ h.eq_of_mem_links hb' hb hlink' hlink
    · rintro rfl
      exact hlink
  · intro c hc
    obtain ⟨b, htarget, hb, -⟩ := h.exists_target hc
    refine ⟨b, hb, (uid_of_bubble? htarget).symm, ?_⟩
    intro b' hb'
    rw [mem_incoming, ← uid_of_bubble? htarget]
    constructor
    · rintro ⟨-, huid⟩
      exact h.eq_of_mem_uids hb' hb b'.uid_mem_uids (huid ▸ b.uid_mem_uids)
    · rintro rfl
      exact ⟨hc, rfl⟩
  · intro b hb
    rw [map_slot_links, slots_of_bubble? (h.bubble?_uid hb), b.slots_eq_slotsByKind]

end WellFormed

/-- A choice with an option that leads nowhere, and a condition with a branch that goes back to the choice. The
connections stand in no order. -/
def ford : Scene where
  name := "ford"
  bubbles :=
    [⟨⟨2⟩, "", 0, false, .condition "deep"⟩, ⟨⟨0⟩, "", 0, false, .start⟩,
      ⟨⟨1⟩, "", 0, false, .choice [⟨⟨7⟩, "wade"⟩, ⟨⟨5⟩, "wait"⟩, ⟨⟨6⟩, "turn"⟩]⟩,
      ⟨⟨3⟩, "", 0, false, .story "across"⟩]
  connections :=
    [⟨⟨4⟩, ⟨⟨2⟩, .whenFalse⟩, ⟨3⟩, .south, .north⟩, ⟨⟨1⟩, ⟨⟨6⟩, .next⟩, ⟨3⟩, .south, .north⟩,
      ⟨⟨0⟩, ⟨⟨2⟩, .whenTrue⟩, ⟨1⟩, .south, .north⟩, ⟨⟨3⟩, ⟨⟨7⟩, .next⟩, ⟨2⟩, .south, .north⟩,
      ⟨⟨9⟩, ⟨⟨0⟩, .next⟩, ⟨1⟩, .south, .north⟩]

/-- The links of the condition and of the choice change places, and the second option has none. -/
theorem links_and_incoming_agree_ford : ford.WellFormed ∧
    (ford.bubbles.flatMap fun b ↦ ford.links b.uid).Perm ford.connections ∧
    (ford.bubbles.flatMap fun b ↦ ford.incoming b.uid).Perm ford.connections ∧
    (ford.links ⟨1⟩).map (·.slot) = [⟨⟨7⟩, .next⟩, ⟨⟨6⟩, .next⟩] ∧
    (ford.links ⟨2⟩).map (·.slot) = [⟨⟨2⟩, .whenTrue⟩, ⟨⟨2⟩, .whenFalse⟩] := by
  have hford : ford.WellFormed := by decide
  obtain ⟨-, hlinks, hincoming, -, -, hslots⟩ := hford.links_and_incoming_agree
  refine ⟨hford, hlinks, hincoming, ?_, ?_⟩
  · exact hslots ⟨⟨1⟩, "", 0, false, .choice [⟨⟨7⟩, "wade"⟩, ⟨⟨5⟩, "wait"⟩, ⟨⟨6⟩, "turn"⟩]⟩ (by decide)
  · exact hslots ⟨⟨2⟩, "", 0, false, .condition "deep"⟩ (by decide)

end Scene

end StoryGraph
