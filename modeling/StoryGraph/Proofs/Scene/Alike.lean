import StoryGraph.Proofs.Scene.Coverage
import StoryGraph.Proofs.Scene.Sequence

/-!
# Scenes that are written down differently

A scene is a graph, and its lists say more than that: which bubble comes first, which connection does, the
ids of connections, and the sides at which they are drawn. Well-formed scenes that differ in no more than
this answer every question alike. They are ordered alike, although the walk keeps account of connections by
their ids, and they have one emission sequence.
-/

namespace StoryGraph

/-- What a connection joins. -/
def Connection.link (c : Connection) : Slot × Uid := (c.slot, c.target)

namespace Scene

/-- `s.Alike t`: two scenes are well-formed and have the same bubbles and the same links, whatever the order
of their lists, the ids of the connections and their anchors. -/
structure Alike (s t : Scene) : Prop where
  left : s.WellFormed
  right : t.WellFormed
  name_eq : s.name = t.name
  bubbles : s.bubbles.Perm t.bubbles
  links : (s.connections.map (·.link)).Perm (t.connections.map (·.link))

variable {s t : Scene}

theorem WellFormed.link?_eq_some_iff_mem (h : s.WellFormed) {slot : Slot} {u : Uid} :
    (s.link? slot).map (·.target) = some u ↔ (slot, u) ∈ s.connections.map (·.link) := by
  rw [Option.map_eq_some_iff, List.mem_map]
  simp only [h.link?_eq_some_iff, Connection.link, Prod.mk.injEq, and_assoc]

/-- A scene is like itself when its lists are put into another order, and its connections get other ids and
anchors. -/
theorem Alike.of_renumbering (h : s.WellFormed) {bubbles : List Bubble} {connections : List Connection}
    (hbubbles : s.bubbles.Perm bubbles) (hconnections : s.connections.Perm connections)
    {f : Connection → Connection} (hlink : ∀ c, (f c).link = c.link)
    (hids : ∀ c ∈ s.connections, ∀ d ∈ s.connections, (f c).id = (f d).id → c.id = d.id) :
    s.Alike ⟨s.name, bubbles, connections.map f⟩ := by
  have hslots : (connections.map f).map (·.slot) = connections.map (·.slot) := by
    rw [List.map_map]
    exact List.map_congr_left fun c _ ↦ congrArg (·.1) (hlink c)
  have hlinks : (connections.map f).map (·.link) = connections.map (·.link) := by
    rw [List.map_map]
    exact List.map_congr_left fun c _ ↦ hlink c
  refine ⟨h, wellFormed_of_links ?_ ?_ ?_ ?_ ?_, rfl, hbubbles, ?_⟩
  · rw [← hbubbles.countP_eq]
    exact h.start_unique
  · exact (hbubbles.flatMap_right Bubble.uids).nodup_iff.mp h.nodup_uids
  · intro c hc
    obtain ⟨c, hmem, rfl⟩ := List.mem_map.mp hc
    obtain ⟨hslot, htarget⟩ := Prod.mk.inj (hlink c)
    obtain ⟨⟨b, hb, hsource⟩, b', hb', huid, hno⟩ := h.exists_link (hconnections.mem_iff.mpr hmem)
    rw [hslot, htarget]
    exact ⟨⟨b, hbubbles.mem_iff.mp hb, hsource⟩, b', hbubbles.mem_iff.mp hb', huid, hno⟩
  · rw [List.map_map]
    refine List.Nodup.map_on ?_ (hconnections.nodup_iff.mp h.nodup_ids.of_map)
    intro c hc d hd hid
    have hc := hconnections.mem_iff.mpr hc
    have hd := hconnections.mem_iff.mpr hd
    exact List.inj_on_of_nodup_map h.nodup_ids hc hd (hids c hc d hd hid)
  · rw [hslots]
    exact (hconnections.map _).nodup_iff.mp h.nodup_slots
  · rw [hlinks]
    exact hconnections.map _

namespace Alike

/-! ## Questions -/

theorem bubble?_eq (h : s.Alike t) (u : Uid) : s.bubble? u = t.bubble? u := by
  ext b
  rw [h.left.bubble?_eq_some_iff, h.right.bubble?_eq_some_iff, h.bubbles.mem_iff]

theorem owner?_eq (h : s.Alike t) (o : Uid) : s.owner? o = t.owner? o := by
  ext b
  rw [h.left.owner?_eq_some_iff, h.right.owner?_eq_some_iff, h.bubbles.mem_iff]

theorem start?_eq (h : s.Alike t) : s.start? = t.start? := by
  ext b
  rw [h.left.start?_eq_some_iff, h.right.start?_eq_some_iff, h.bubbles.mem_iff]

theorem container?_eq (h : s.Alike t) (u : Uid) : s.container? u = t.container? u := by
  rw [container?, container?, h.bubble?_eq, h.owner?_eq]

/-- A slot leads to the same bubble, by whatever connection. -/
theorem rel_link? (h : s.Alike t) (slot : Slot) :
    Option.Rel (fun c d ↦ c ∈ s.connections ∧ d ∈ t.connections ∧ c.link = d.link)
      (s.link? slot) (t.link? slot) := by
  have htarget : (s.link? slot).map (·.target) = (t.link? slot).map (·.target) := by
    ext u
    rw [h.left.link?_eq_some_iff_mem, h.right.link?_eq_some_iff_mem, h.links.mem_iff]
  cases hc : s.link? slot with
  | none =>
      rw [hc] at htarget
      rw [Option.map_eq_none_iff.mp htarget.symm]
      exact .none
  | some c =>
      rw [hc] at htarget
      obtain ⟨d, hd, heq⟩ := Option.map_eq_some_iff.mp htarget.symm
      rw [hd]
      exact .some ⟨mem_connections_of_link? hc, mem_connections_of_link? hd,
        Prod.ext ((slot_of_link? hc).trans (slot_of_link? hd).symm) heq.symm⟩

theorem links_incoming (h : s.Alike t) (u : Uid) :
    ((s.incoming u).map (·.link)).Perm ((t.incoming u).map (·.link)) := by
  have hfilter (s : Scene) :
      (s.incoming u).map (·.link) = (s.connections.map (·.link)).filter (·.2 = u) := by
    rw [List.filter_map]
    rfl
  rw [hfilter, hfilter]
  exact h.links.filter _

theorem targets_perm (h : s.Alike t) : s.targets.Perm t.targets := by
  have htargets (s : Scene) : s.targets = (s.connections.map (·.link)).map (·.2) := by
    rw [List.map_map]
    rfl
  rw [htargets, htargets]
  exact h.links.map _

/-! ## The emission sequence -/

theorem sequence_eq (h : s.Alike t) : s.sequence = t.sequence :=
  h.left.sequence_eq_map ((List.mergeSort_perm _ _).trans h.bubbles.symm)
    (List.pairwise_mergeSort precedes_trans precedes_total t.bubbles)

/-! ## Ordering -/

/-- `Pairs s t i j`: the connections of two ids join the same. -/
def Pairs (s t : Scene) (i j : ConnectionId) : Prop :=
  ∃ c ∈ s.connections, ∃ d ∈ t.connections, c.id = i ∧ d.id = j ∧ c.link = d.link

theorem Pairs.symm {i j : ConnectionId} (h : Pairs s t i j) : Pairs t s j i := by
  obtain ⟨c, hc, d, hd, hi, hj, hlink⟩ := h
  exact ⟨d, hd, c, hc, hj, hi, hlink.symm⟩

/-- No two connections of a scene are paired with one. -/
theorem leftUnique_pairs (hs : s.WellFormed) (ht : t.WellFormed) : Relator.LeftUnique (Pairs s t) := by
  rintro _ _ _ ⟨c, hc, d, hd, rfl, rfl, hlink⟩ ⟨c', hc', d', hd', rfl, hid, hlink'⟩
  obtain rfl : d' = d := List.inj_on_of_nodup_map ht.nodup_ids hd' hd hid
  have hslot : c.slot = c'.slot := congrArg (·.1) (hlink.trans hlink'.symm)
  rw [List.inj_on_of_nodup_map hs.nodup_slots hc hc' hslot]

/-- A walk cannot tell the scenes apart. -/
theorem abreast (h : s.Alike t) : Abreast (Pairs s t) s t := by
  refine .of_view ⟨leftUnique_pairs h.left h.right, ?_⟩ ?_ ?_ ?_
  · intro i j k hij hik
    exact leftUnique_pairs h.right h.left hij.symm hik.symm
  · intro u
    rw [h.bubble?_eq]
  · intro slot
    have hlinks := h.rel_link? slot
    generalize s.link? slot = c? at hlinks ⊢
    generalize t.link? slot = d? at hlinks ⊢
    cases hlinks with
    | none => exact .none
    | some hcd =>
        obtain ⟨hc, hd, hlink⟩ := hcd
        exact .some ⟨_, hc, _, hd, rfl, rfl, hlink⟩
  · rintro _ _ ⟨c, hc, d, hd, rfl, rfl, hlink⟩
    rw [h.left.connection?_id hc, h.right.connection?_id hd]
    exact congrArg (fun l ↦ some l.2) hlink

theorem reorder (h : s.Alike t) (f : Bubble → Int64) : (s.reorder f).Alike (t.reorder f) where
  left := wellFormed_reorder h.left f
  right := wellFormed_reorder h.right f
  name_eq := h.name_eq
  bubbles := h.bubbles.map _
  links := h.links

/-- Ordering ends alike, and leaves the scenes alike. -/
theorem computeOrder (h : s.Alike t) :
    (∃ e, s.computeOrder = .error e ∧ t.computeOrder = .error e) ∨
      ∃ count s' t', s.computeOrder = .ok (count, s') ∧ t.computeOrder = .ok (count, t') ∧ s'.Alike t' := by
  obtain ⟨start, hstart, -⟩ := h.left.exists_start
  rw [h.left.computeOrder_eq hstart, h.right.computeOrder_eq (h.start?_eq ▸ hstart),
    h.abreast.course_eq]
  cases hcourse : t.course start.uid with
  | error e => exact .inl ⟨e, rfl, rfl⟩
  | ok result => exact .inr ⟨result.1, _, _, rfl, rfl, h.reorder _⟩

end Alike

end Scene

end StoryGraph
