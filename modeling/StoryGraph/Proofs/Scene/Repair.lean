import Mathlib.Tactic.Tauto
import StoryGraph.Scene.WellFormed

/-!
# What repair drops, and for what

Repair goes through the connections of a scene in order. A connection is refused if it cannot be resolved,
if one before it that could be resolved has its id, or if one that was kept has its slot. So the slot of a
connection is free again once that connection is dropped, but its id is not: a connection can be lost to
the id of one that is lost itself.

What stays is resolved all the same: every connection leaves a slot and ends where a link may end, and no
two have one id or one slot. Connections of which all this is true stay as they are.
-/

namespace StoryGraph

/-- `Parted xs kept dropped`: each element of a list is either among those kept or among those dropped,
both of them in the order of the list. -/
inductive Parted {α : Type} : List α → List α → List α → Prop where
  | nil : Parted [] [] []
  | keep (x : α) {xs kept dropped : List α} (h : Parted xs kept dropped) :
      Parted (x :: xs) (x :: kept) dropped
  | drop (x : α) {xs kept dropped : List α} (h : Parted xs kept dropped) :
      Parted (x :: xs) kept (x :: dropped)

/-- Where nothing is dropped, all is kept. -/
theorem Parted.eq_of_dropped_nil {α : Type} {xs kept : List α} (h : Parted xs kept []) : kept = xs := by
  generalize hdropped : ([] : List α) = dropped at h
  induction h with
  | nil => rfl
  | keep x _ ih => rw [ih hdropped]
  | drop => cases hdropped

namespace Scene

/-- Whether repair refuses a connection, where some come before it and some of these have been kept. -/
def Refuses (s : Scene) (before kept : List Connection) (c : Connection) : Prop :=
  ¬ s.resolves c ∨ (∃ c' ∈ before, s.resolves c' ∧ c'.id = c.id) ∨ ∃ c' ∈ kept, c'.slot = c.slot

/-- `s.Sifted before kept cs kept' dropped`: of connections that come after others, those are kept that are
not refused and those are dropped that are, each list in the order of the connections. -/
inductive Sifted (s : Scene) :
    List Connection → List Connection → List Connection → List Connection → List Connection → Prop where
  | nil (before kept : List Connection) : Sifted s before kept [] [] []
  | keep {before kept cs kept' dropped : List Connection} {c : Connection}
      (hc : ¬ s.Refuses before kept c)
      (h : Sifted s (before ++ [c]) (kept ++ [c]) cs kept' dropped) :
      Sifted s before kept (c :: cs) (c :: kept') dropped
  | drop {before kept cs kept' dropped : List Connection} {c : Connection}
      (hc : s.Refuses before kept c) (h : Sifted s (before ++ [c]) kept cs kept' dropped) :
      Sifted s before kept (c :: cs) kept' (c :: dropped)

variable {s : Scene} {before kept : List Connection} {ids : List ConnectionId} {slots : List Slot}
  {c : Connection}

/-- `s.Recalls before kept ids slots`: what is taken are the ids of the connections before that can be
resolved, and the slots of those that were kept. -/
structure Recalls (s : Scene) (before kept : List Connection) (ids : List ConnectionId)
    (slots : List Slot) : Prop where
  mem_ids : ∀ id, id ∈ ids ↔ ∃ c ∈ before, s.resolves c ∧ c.id = id
  mem_slots : ∀ slot, slot ∈ slots ↔ ∃ c ∈ kept, c.slot = slot

namespace Recalls

theorem refuses_iff (h : s.Recalls before kept ids slots) :
    s.Refuses before kept c ↔ ¬ s.resolves c ∨ c.id ∈ ids ∨ c.slot ∈ slots := by
  rw [Refuses, h.mem_ids, h.mem_slots]

/-- A connection that cannot be resolved, or whose id is taken, takes nothing. -/
theorem pass (h : s.Recalls before kept ids slots) (hc : ¬ s.resolves c ∨ c.id ∈ ids) :
    s.Recalls (before ++ [c]) kept ids slots := by
  refine ⟨?_, h.mem_slots⟩
  intro id
  have hold : s.resolves c → c.id = id → id ∈ ids := by
    rintro hresolves rfl
    exact hc.resolve_left (not_not_intro hresolves)
  simp only [List.mem_append, List.mem_singleton, or_and_right, exists_or, exists_eq_left]
  rw [← h.mem_ids]
  tauto

/-- A connection that can be resolved takes its id, also if it is dropped for its slot. -/
theorem take (h : s.Recalls before kept ids slots) (hresolves : s.resolves c) :
    s.Recalls (before ++ [c]) kept (c.id :: ids) slots := by
  refine ⟨?_, h.mem_slots⟩
  intro id
  rw [List.mem_cons, h.mem_ids, @eq_comm _ id]
  simp only [List.mem_append, List.mem_singleton, or_and_right, exists_or, exists_eq_left, hresolves,
    true_and]
  exact or_comm

theorem keep (h : s.Recalls before kept ids slots) (c : Connection) :
    s.Recalls before (kept ++ [c]) ids (c.slot :: slots) := by
  refine ⟨h.mem_ids, ?_⟩
  intro slot
  rw [List.mem_cons, h.mem_slots, @eq_comm _ slot]
  simp only [List.mem_append, List.mem_singleton, or_and_right, exists_or, exists_eq_left]
  exact or_comm

/-- Sifting keeps and drops by what the connections before have taken. -/
theorem sifted (h : s.Recalls before kept ids slots) (cs : List Connection) :
    s.Sifted before kept cs (s.sift ids slots cs).1 (s.sift ids slots cs).2 := by
  induction cs generalizing before kept ids slots with
  | nil => exact .nil before kept
  | cons c cs ih =>
      rw [sift]
      split
      · rename_i hpass
        have hpass : ¬ s.resolves c ∨ c.id ∈ ids := by simpa using hpass
        exact .drop (h.refuses_iff.mpr (hpass.imp_right .inl)) (ih (h.pass hpass))
      · rename_i hpass
        obtain ⟨hresolves, hid⟩ : s.resolves c ∧ c.id ∉ ids := by simpa using hpass
        split
        · rename_i hslot
          exact .drop (h.refuses_iff.mpr (.inr (.inr hslot))) (ih (h.take hresolves))
        · rename_i hslot
          have hc : ¬ s.Refuses before kept c := by
            rw [h.refuses_iff]
            tauto
          exact .keep hc (ih ((h.take hresolves).keep c))

end Recalls

/-- Whatever connections a scene has, repair goes through them in order and drops exactly those that it
refuses: the ones that cannot be resolved, that have the id of an earlier one that can be resolved, or that
leave the slot of an earlier one that is kept. -/
theorem sifted_repair (s : Scene) :
    s.Sifted [] [] s.connections s.repair.1.connections s.repair.2 := by
  have hstart : s.Recalls [] [] [] [] := ⟨by simp, by simp⟩
  exact hstart.sifted s.connections

/-- Two connections of one slot, and after them the link of another slot, which has the id of the second. -/
def lostLink : Scene where
  name := "startup"
  bubbles := [.create ⟨0⟩ .start, .create ⟨1⟩ (.story "here"), .create ⟨2⟩ (.story "there")]
  connections :=
    [⟨⟨0⟩, ⟨⟨0⟩, .next⟩, ⟨1⟩, .south, .north⟩, ⟨⟨1⟩, ⟨⟨0⟩, .next⟩, ⟨2⟩, .south, .north⟩,
      ⟨⟨1⟩, ⟨⟨1⟩, .next⟩, ⟨2⟩, .south, .north⟩]

/-- A connection can be dropped that can be resolved and shares neither its id nor its slot with one that
is kept. -/
theorem not_forall_dropped_clashes :
    ¬ ∀ s : Scene, ∀ c ∈ s.repair.2, ¬ s.resolves c ∨
      ∃ c' ∈ s.repair.1.connections, c'.id = c.id ∨ c'.slot = c.slot := by
  intro h
  have hlost := h lostLink ⟨⟨1⟩, ⟨⟨1⟩, .next⟩, ⟨2⟩, .south, .north⟩ (by decide)
  exact absurd hlost (by decide)

/-! ## What stays -/

theorem parted_sift (s : Scene) (ids : List ConnectionId) (slots : List Slot) (cs : List Connection) :
    Parted cs (s.sift ids slots cs).1 (s.sift ids slots cs).2 := by
  induction cs generalizing ids slots with
  | nil => exact .nil
  | cons c cs ih =>
      rw [sift]
      split
      · exact .drop c (ih ids slots)
      · split
        · exact .drop c (ih (c.id :: ids) slots)
        · exact .keep c (ih (c.id :: ids) (c.slot :: slots))

/-- What stays of connections can be resolved, and takes each id and each slot once that is not taken. -/
theorem of_sift (s : Scene) (cs : List Connection) (ids : List ConnectionId) (slots : List Slot) :
    (s.sift ids slots cs).1.Sublist cs ∧
      (∀ c ∈ (s.sift ids slots cs).1, s.resolves c ∧ c.id ∉ ids ∧ c.slot ∉ slots) ∧
      ((s.sift ids slots cs).1.map (·.id)).Nodup ∧ ((s.sift ids slots cs).1.map (·.slot)).Nodup := by
  induction cs generalizing ids slots with
  | nil => simp [sift]
  | cons c cs ih =>
      rw [sift]
      split
      · obtain ⟨hsub, hkept, hids, hslots⟩ := ih ids slots
        exact ⟨hsub.cons c, hkept, hids, hslots⟩
      · rename_i hgood
        obtain ⟨hresolves, hid⟩ : s.resolves c ∧ c.id ∉ ids := by simpa using hgood
        split
        · obtain ⟨hsub, hkept, hids, hslots⟩ := ih (c.id :: ids) slots
          refine ⟨hsub.cons c, ?_, hids, hslots⟩
          intro c' hc'
          obtain ⟨hresolves', hid', hslot'⟩ := hkept c' hc'
          exact ⟨hresolves', fun hmem ↦ hid' (List.mem_cons_of_mem _ hmem), hslot'⟩
        · rename_i hslot
          obtain ⟨hsub, hkept, hids, hslots⟩ := ih (c.id :: ids) (c.slot :: slots)
          refine ⟨hsub.cons_cons c, ?_, ?_, ?_⟩
          · intro c' hc'
            rcases List.mem_cons.mp hc' with rfl | hc'
            · exact ⟨hresolves, hid, hslot⟩
            · obtain ⟨hresolves', hid', hslot'⟩ := hkept c' hc'
              exact ⟨hresolves', fun hmem ↦ hid' (List.mem_cons_of_mem _ hmem),
                fun hmem ↦ hslot' (List.mem_cons_of_mem _ hmem)⟩
          · refine List.nodup_cons.mpr ⟨?_, hids⟩
            intro hmem
            obtain ⟨c', hc', heq⟩ := List.mem_map.mp hmem
            exact (hkept c' hc').2.1 (heq ▸ List.mem_cons_self)
          · refine List.nodup_cons.mpr ⟨?_, hslots⟩
            intro hmem
            obtain ⟨c', hc', heq⟩ := List.mem_map.mp hmem
            exact (hkept c' hc').2.2 (heq ▸ List.mem_cons_self)

/-! ## Nothing to repair -/

/-- Connections that are fine together all stay. -/
theorem sift_eq_self {s : Scene} {ids : List ConnectionId} {slots : List Slot} {cs : List Connection}
    (h : ∀ c ∈ cs, s.resolves c ∧ c.id ∉ ids ∧ c.slot ∉ slots) (hids : (cs.map (·.id)).Nodup)
    (hslots : (cs.map (·.slot)).Nodup) : s.sift ids slots cs = (cs, []) := by
  induction cs generalizing ids slots with
  | nil => rfl
  | cons c cs ih =>
      obtain ⟨⟨hresolves, hid, hslot⟩, hcs⟩ := List.forall_mem_cons.mp h
      obtain ⟨hidNot, hids⟩ := List.nodup_cons.mp hids
      obtain ⟨hslotNot, hslots⟩ := List.nodup_cons.mp hslots
      have hrest : s.sift (c.id :: ids) (c.slot :: slots) cs = (cs, []) := by
        refine ih ?_ hids hslots
        intro c' hc'
        obtain ⟨hresolves', hid', hslot'⟩ := hcs c' hc'
        refine ⟨hresolves', ?_, ?_⟩
        · rw [List.mem_cons, not_or]
          exact ⟨fun heq ↦ hidNot (List.mem_map.mpr ⟨c', hc', heq⟩), hid'⟩
        · rw [List.mem_cons, not_or]
          exact ⟨fun heq ↦ hslotNot (List.mem_map.mpr ⟨c', hc', heq⟩), hslot'⟩
      rw [sift, if_neg (by simp [hresolves, hid]), if_neg hslot, hrest]

/-- What repair makes of the connections of a scene. Nothing is said of its bubbles. -/
structure Resolved (s : Scene) : Prop where
  /-- Every connection leaves a slot of the scene. -/
  leaves : ∀ c ∈ s.connections, s.hasSlot c.slot
  /-- Every connection ends at a bubble that is no start. -/
  ends : ∀ c ∈ s.connections, ∃ b, s.bubble? c.target = some b ∧ b.isStart = false
  nodup_ids : (s.connections.map (·.id)).Nodup
  nodup_slots : (s.connections.map (·.slot)).Nodup

theorem resolves_iff {s : Scene} {c : Connection} :
    s.resolves c ↔ s.hasSlot c.slot ∧ ∃ b, s.bubble? c.target = some b ∧ b.isStart = false := by
  rw [resolves, Bool.and_eq_true, isTarget]
  cases s.bubble? c.target <;> simp

/-- There is nothing to repair where all is resolved. -/
theorem Resolved.repair_eq {s : Scene} (h : s.Resolved) : s.repair = (s, []) := by
  have hall : ∀ c ∈ s.connections,
      s.resolves c ∧ c.id ∉ ([] : List ConnectionId) ∧ c.slot ∉ ([] : List Slot) :=
    fun c hc ↦ ⟨resolves_iff.mpr ⟨h.leaves c hc, h.ends c hc⟩, List.not_mem_nil, List.not_mem_nil⟩
  rw [repair, sift_eq_self hall h.nodup_ids h.nodup_slots]

theorem WellFormed.resolved {s : Scene} (h : s.WellFormed) : s.Resolved where
  leaves c hc := (resolves_iff.mp (h.resolves c hc)).1
  ends c hc := (resolves_iff.mp (h.resolves c hc)).2
  nodup_ids := h.nodup_ids
  nodup_slots := h.nodup_slots

/-- There is nothing to repair in a well-formed scene. -/
theorem WellFormed.repair_eq {s : Scene} (h : s.WellFormed) : s.repair = (s, []) := h.resolved.repair_eq

/-! ## A repaired scene -/

/-- Repair resolves the connections of a scene, whatever they are and whatever its bubbles are. -/
theorem resolved_fst_repair (s : Scene) : s.repair.1.Resolved := by
  obtain ⟨-, hkept, hids, hslots⟩ := s.of_sift s.connections [] []
  exact ⟨fun c hc ↦ (resolves_iff.mp (hkept c hc).1).1, fun c hc ↦ (resolves_iff.mp (hkept c hc).1).2,
    hids, hslots⟩

/-- Repair parts the connections of a scene in two, those that stay and those that are dropped, and leaves
its bubbles alone. What stays is resolved; nothing is dropped exactly if all was resolved before; and so
there is nothing left for a second repair. -/
theorem repair_resolves (s : Scene) :
    s.repair.1.name = s.name ∧ s.repair.1.bubbles = s.bubbles ∧ s.repair.1.Resolved ∧
      Parted s.connections s.repair.1.connections s.repair.2 ∧ (s.repair.2 = [] ↔ s.Resolved) ∧
      s.repair.1.repair = (s.repair.1, []) := by
  have hresolved := s.resolved_fst_repair
  have hparted : Parted s.connections s.repair.1.connections s.repair.2 := s.parted_sift [] [] s.connections
  refine ⟨rfl, rfl, hresolved, hparted, ⟨?_, ?_⟩, hresolved.repair_eq⟩
  · intro hnone
    rw [hnone] at hparted
    have hsame : s.repair.1 = s := congrArg (fun cs ↦ ({ s with connections := cs } : Scene))
      hparted.eq_of_dropped_nil
    rwa [hsame] at hresolved
  · intro h
    rw [h.repair_eq]

end Scene

end StoryGraph
