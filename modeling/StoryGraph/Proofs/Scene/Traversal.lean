import StoryGraph.Proofs.Scene.Refresh

/-!
# The connections that ordering takes

In a well-formed scene every connection is the link of one bubble. The walk from the start takes a
connection once, and it takes those that leave what can be reached, and no others: it knows of no other
connections, and of those it forgets none. The search for what can be reached goes over bubbles, and
breadth first; they agree all the same on where connections end.
-/

namespace StoryGraph.Scene

variable {s t : Scene}

/-! ## Where links come from -/

namespace WellFormed

variable (h : s.WellFormed)

include h

theorem mem_links_iff {b : Bubble} (hb : b ∈ s.bubbles) {c : Connection} :
    c ∈ s.links b.uid ↔ c ∈ s.connections ∧ c.slot ∈ b.slots := by
  rw [mem_links_iff_of_bubble? (h.bubble?_uid hb)]
  constructor
  · rintro ⟨slot, hslot, hlink⟩
    obtain ⟨hc, rfl⟩ := h.link?_eq_some_iff.mp hlink
    exact ⟨hc, hslot⟩
  · rintro ⟨hc, hslot⟩
    exact ⟨c.slot, hslot, h.link?_eq_some_iff.mpr ⟨hc, rfl⟩⟩

/-- A connection is a link of one bubble. -/
theorem exists_mem_links {c : Connection} (hc : c ∈ s.connections) :
    ∃ b ∈ s.bubbles, c ∈ s.links b.uid := by
  obtain ⟨b, hb, hslot⟩ := h.exists_source hc
  exact ⟨b, hb, (h.mem_links_iff hb).mpr ⟨hc, hslot⟩⟩

theorem eq_of_mem_links {b b' : Bubble} (hb : b ∈ s.bubbles) (hb' : b' ∈ s.bubbles) {c : Connection}
    (hc : c ∈ s.links b.uid) (hc' : c ∈ s.links b'.uid) : b = b' :=
  h.eq_of_mem_slots hb hb' ((h.mem_links_iff hb).mp hc).2 ((h.mem_links_iff hb').mp hc').2

theorem container?_of_mem_links {b : Bubble} (hb : b ∈ s.bubbles) {c : Connection}
    (hc : c ∈ s.links b.uid) : s.container? c.source = some b.uid := by
  have hslot := ((h.mem_links_iff hb).mp hc).2
  unfold Bubble.slots at hslot
  unfold container? Connection.source
  split at hslot
  · obtain ⟨u, hu, heq⟩ := List.mem_map.mp hslot
    have howner := h.owner?_eq_some_iff.mpr ⟨hb, hu⟩
    simp [← heq, h.bubble?_of_mem_optionUids hb hu, howner]
  · obtain ⟨e, -, heq⟩ := List.mem_map.mp hslot
    simp [← heq, h.bubble?_uid hb]

theorem mem_links_of_id {u : Uid} {c : Connection} (hc : c ∈ s.connections)
    (hid : c.id ∈ (s.links u).map (·.id)) : c ∈ s.links u := by
  obtain ⟨d, hd, heq⟩ := List.mem_map.mp hid
  rwa [List.inj_on_of_nodup_map h.nodup_ids hc (mem_connections_of_mem_links hd) heq.symm]

theorem exists_bubble_of_mem_reachable {u : Uid} (hu : u ∈ s.reachable) :
    ∃ b ∈ s.bubbles, b.uid = u := by
  obtain ⟨start, hstart, hmem, -⟩ := h.exists_start
  rw [mem_reachable_iff hstart] at hu
  cases hu with
  | refl => exact ⟨start, hmem, rfl⟩
  | tail _ hlink =>
      obtain ⟨c, hc, rfl⟩ := hlink
      obtain ⟨b, hb, hmem', -⟩ := h.exists_target (mem_connections_of_mem_links hc)
      exact ⟨b, hmem', uid_of_bubble? hb⟩

theorem target_mem_reachable {u : Uid} (hu : u ∈ s.reachable) {c : Connection} (hc : c ∈ s.links u) :
    c.target ∈ s.reachable := by
  obtain ⟨start, hstart, -⟩ := h.exists_start
  rw [mem_reachable_iff hstart] at hu ⊢
  exact hu.tail ⟨c, hc, rfl⟩

end WellFormed

/-! ## What a walk takes -/

section

variable {w w' : Walk} {pending pending' : List (ConnectionId × Int64)}

/-- No connection is taken twice. -/
theorem WalkStep.nodup_done (h : s.WalkStep w pending w' pending') (hw : w.done.Nodup) :
    w'.done.Nodup := by
  cases h with
  | again => exact hw
  | nowhere hid | arrive _ hid => exact List.nodup_cons.mpr ⟨hid, hw⟩

/-- `s.Sources u w pending`: a walk knows of links only of bubbles that links lead to from `u`. -/
def Sources (s : Scene) (u : Uid) (w : Walk) (pending : List (ConnectionId × Int64)) : Prop :=
  ∀ id, w.Knows pending id → ∃ v, s.LeadsTo u v ∧ id ∈ (s.links v).map (·.id)

theorem WalkStep.sources (hs : s.WellFormed) {u : Uid} (h : s.WalkStep w pending w' pending')
    (hw : s.Sources u w pending) : s.Sources u w' pending' := by
  intro id hid
  rcases h.knows_or_exists hid with hid | ⟨i, b, hi, hend, hid⟩
  · exact hw id hid
  · obtain ⟨v, hv, hlink⟩ := hw i hi
    obtain ⟨c, hc, rfl⟩ := List.mem_map.mp hlink
    obtain ⟨b', hend', huid⟩ := hs.exists_end? hc
    obtain rfl := Option.some.inj (hend.symm.trans hend')
    exact ⟨b.uid, hv.tail ⟨c, hc, huid.symm⟩, hid⟩

end

namespace WellFormed

variable (h : s.WellFormed) {start : Bubble} {w : Walk}

include h

/-- The walk from the start takes the links of what can be reached, each once. -/
theorem of_walkFrom_done (hwalk : s.walkFrom start.uid = .ok w) :
    w.done.Nodup ∧ ∀ id ∈ w.done, ∃ u, s.LeadsTo start.uid u ∧ id ∈ (s.links u).map (·.id) := by
  unfold walkFrom at hwalk
  split at hwalk
  · obtain rfl := Except.ok.inj hwalk
    exact ⟨.nil, by simp⟩
  · rename_i first hfirst
    have hsources : s.Sources start.uid ⟨[], []⟩ [(first.id, 0)] := by
      intro id hid
      obtain rfl : id = first.id := by simpa [Walk.Knows] using hid
      exact ⟨start.uid, .refl, List.mem_map_of_mem (List.mem_of_mem_head? hfirst)⟩
    have hnodup : w.done.Nodup :=
      inv_of_walk (I := fun w _ ↦ w.done.Nodup) WalkStep.nodup_done List.nodup_nil hwalk
    exact ⟨hnodup, fun id hid ↦ inv_of_walk (WalkStep.sources h) hsources hwalk id (.inl hid)⟩

variable (hstart : s.start? = some start)

include hstart

theorem mem_done_iff (hwalk : s.walkFrom start.uid = .ok w) {id : ConnectionId} :
    id ∈ w.done ↔ ∃ u, s.LeadsTo start.uid u ∧ id ∈ (s.links u).map (·.id) := by
  obtain ⟨hseed, hcovers, -⟩ := h.of_walkFrom hstart hwalk
  refine ⟨(h.of_walkFrom_done hwalk).2 id, ?_⟩
  rintro ⟨u, hu, hid⟩
  obtain ⟨c, hc, rfl⟩ := List.mem_map.mp hid
  rcases h.exists_end?_of_leadsTo hstart hwalk hu with rfl | ⟨i, hi, b, hb, rfl⟩
  · exact hseed c hc
  · exact (hcovers.links i hi b hb c hc).resolve_right List.not_mem_nil

/-! ## What ordering takes -/

/-- The walk that ordering takes is the walk from the start, in the scene with other orders. -/
theorem exists_walkFrom_of_orderWalk (hwalk : s.orderWalk = .ok w) :
    ∃ (f : Bubble → Int64) (pinned : Bubble), pinned.uid = start.uid ∧
      (s.reorder f).start? = some pinned ∧ (s.reorder f).walkFrom pinned.uid = .ok w := by
  simp only [orderWalk, hstart, h.pinStart_eq] at hwalk
  set f : Bubble → Int64 := fun b ↦ if b.isStart && !b.locked then 0 else b.order
  refine ⟨f, { start with order := f start }, rfl, ?_, hwalk⟩
  rw [start?_reorder, hstart]
  rfl

/-- The connections that ordering takes end at what can be reached, and not at the start. -/
theorem exists_taken_iff (hwalk : s.orderWalk = .ok w) {u : Uid} :
    (∃ c ∈ s.connections, c.id ∈ w.done ∧ c.target = u) ↔ u ∈ s.reachable ∧ u ≠ start.uid := by
  obtain ⟨f, pinned, huid, hpinned, hwalk⟩ := h.exists_walkFrom_of_orderWalk hstart hwalk
  rw [← s.reachable_reorder f, ← huid]
  exact ((wellFormed_reorder h f).mem_reachable_iff_exists_done hpinned hwalk).symm

end WellFormed

/-- A bubble can be reached exactly if it is the start, or a connection ends there that ordering takes. -/
theorem WellFormed.mem_reachable_iff_taken (h : s.WellFormed) {w : Walk} (hwalk : s.orderWalk = .ok w)
    {b : Bubble} (hb : b ∈ s.bubbles) :
    b.uid ∈ s.reachable ↔ b.isStart ∨ ∃ c ∈ s.connections, c.id ∈ w.done ∧ c.target = b.uid := by
  obtain ⟨start, hstart, -⟩ := h.exists_start
  have hfirst : start.uid ∈ s.reachable := (mem_reachable_iff hstart).mpr .refl
  rw [h.exists_taken_iff hstart hwalk, h.isStart_iff_uid_eq hstart hb]
  by_cases huid : b.uid = start.uid
  · simp [huid, hfirst]
  · simp [huid]

/-- Whether the bubble that a connection leaves can be reached. -/
def leavesReachable (s : Scene) (c : Connection) : Bool :=
  (s.container? c.source).any (· ∈ s.reachable)

theorem WellFormed.leavesReachable_iff (h : s.WellFormed) {c : Connection} (hc : c ∈ s.connections) :
    s.leavesReachable c ↔ ∃ u ∈ s.reachable, c ∈ s.links u := by
  obtain ⟨b, hb, hlink⟩ := h.exists_mem_links hc
  have hcontainer := h.container?_of_mem_links hb hlink
  simp only [leavesReachable, hcontainer, Option.any_some, decide_eq_true_eq]
  constructor
  · exact fun hreach ↦ ⟨b.uid, hreach, hlink⟩
  · rintro ⟨u, hu, hlink'⟩
    obtain ⟨b', hmem, rfl⟩ := h.exists_bubble_of_mem_reachable hu
    rwa [h.eq_of_mem_links hb hmem hlink hlink']

/-- The connections that ordering takes are those that leave what can be reached, each once. -/
theorem WellFormed.taken_perm (h : s.WellFormed) {w : Walk} (hwalk : s.orderWalk = .ok w) :
    w.done.Perm ((s.connections.filter s.leavesReachable).map (·.id)) := by
  obtain ⟨start, hstart, -⟩ := h.exists_start
  obtain ⟨f, pinned, huid, hpinned, hwalk⟩ := h.exists_walkFrom_of_orderWalk hstart hwalk
  have hf := wellFormed_reorder h f
  have hnodup : ((s.connections.filter s.leavesReachable).map (·.id)).Nodup :=
    h.nodup_ids.sublist (List.filter_sublist.map _)
  rw [List.perm_ext_iff_of_nodup (hf.of_walkFrom_done hwalk).1 hnodup]
  intro id
  have hdone : id ∈ w.done ↔ ∃ u ∈ s.reachable, id ∈ (s.links u).map (·.id) := by
    rw [hf.mem_done_iff hpinned hwalk, ← s.reachable_reorder f]
    simp only [mem_reachable_iff hpinned, links_reorder]
  rw [hdone]
  constructor
  · rintro ⟨u, hu, hid⟩
    obtain ⟨c, hc, rfl⟩ := List.mem_map.mp hid
    have hmem := mem_connections_of_mem_links hc
    exact List.mem_map_of_mem (List.mem_filter.mpr ⟨hmem, (h.leavesReachable_iff hmem).mpr ⟨u, hu, hc⟩⟩)
  · intro hid
    obtain ⟨c, hc, rfl⟩ := List.mem_map.mp hid
    obtain ⟨hmem, hleaves⟩ := List.mem_filter.mp hc
    obtain ⟨u, hu, hlink⟩ := (h.leavesReachable_iff hmem).mp hleaves
    exact ⟨u, hu, List.mem_map_of_mem hlink⟩

/-- Ordering a well-formed scene takes each connection once that leaves a bubble that can be reached, and
no other, and it counts them. Where they end is what can be reached, without the start. Only an order that
overflows keeps it from that. -/
theorem WellFormed.traversal_of_computeOrder (h : s.WellFormed)
    (hfits : s.computeOrder ≠ .error .overflow) :
    ∃ t start w, s.computeOrder = .ok (s.connections.countP s.leavesReachable, t) ∧
      s.start? = some start ∧ s.orderWalk = .ok w ∧ t = s.pinStart.withOrders w.given ∧
      w.done.Nodup ∧ w.done.Perm ((s.connections.filter s.leavesReachable).map (·.id)) ∧
      ∀ u, (∃ c ∈ s.connections, c.id ∈ w.done ∧ c.target = u) ↔ u ∈ s.reachable ∧ u ≠ start.uid := by
  obtain ⟨start, hstart, -⟩ := h.exists_start
  obtain ⟨count, t, horder⟩ := exists_of_computeOrder_ne hstart hfits
  obtain ⟨w, hwalk, rfl, rfl⟩ := exists_orderWalk horder
  have hperm := h.taken_perm hwalk
  have hids : ((s.connections.filter s.leavesReachable).map (·.id)).Nodup :=
    h.nodup_ids.sublist (List.filter_sublist.map _)
  have hcount : w.done.length = s.connections.countP s.leavesReachable := by
    rw [hperm.length_eq, List.length_map, List.countP_eq_length_filter]
  exact ⟨_, start, w, hcount ▸ horder, hstart, hwalk, rfl, hperm.nodup_iff.mpr hids, hperm,
    fun u ↦ h.exists_taken_iff hstart hwalk⟩

/-- A choice that goes back or on, to a condition that goes round by itself or back to the story in front.
A story that nothing leads to goes to the choice as well. -/
def roundabout : Scene where
  name := "roundabout"
  bubbles :=
    [⟨⟨0⟩, "", 3, false, .start⟩, ⟨⟨1⟩, "", 0, false, .story "round"⟩,
      ⟨⟨2⟩, "", 0, true, .choice [⟨⟨10⟩, "back"⟩, ⟨⟨11⟩, "on"⟩]⟩,
      ⟨⟨3⟩, "", 0, false, .story "astray"⟩, ⟨⟨4⟩, "", 0, false, .condition "again"⟩]
  connections :=
    [⟨⟨6⟩, ⟨⟨0⟩, .next⟩, ⟨1⟩, .south, .north⟩, ⟨⟨1⟩, ⟨⟨1⟩, .next⟩, ⟨2⟩, .south, .north⟩,
      ⟨⟨2⟩, ⟨⟨10⟩, .next⟩, ⟨1⟩, .south, .north⟩, ⟨⟨3⟩, ⟨⟨3⟩, .next⟩, ⟨2⟩, .south, .north⟩,
      ⟨⟨4⟩, ⟨⟨11⟩, .next⟩, ⟨4⟩, .south, .north⟩, ⟨⟨5⟩, ⟨⟨4⟩, .whenTrue⟩, ⟨4⟩, .south, .north⟩,
      ⟨⟨0⟩, ⟨⟨4⟩, .whenFalse⟩, ⟨1⟩, .south, .north⟩]

/-- Six of the seven connections are taken. -/
theorem traversal_roundabout : roundabout.WellFormed ∧ roundabout.computeOrder ≠ .error .overflow ∧
    ∃ t start w, roundabout.computeOrder = .ok (6, t) ∧
      roundabout.start? = some start ∧ roundabout.orderWalk = .ok w ∧
      t = roundabout.pinStart.withOrders w.given ∧ w.done.Nodup ∧
      w.done.Perm ((roundabout.connections.filter roundabout.leavesReachable).map (·.id)) ∧
      ∀ u, (∃ c ∈ roundabout.connections, c.id ∈ w.done ∧ c.target = u) ↔
        u ∈ roundabout.reachable ∧ u ≠ start.uid := by
  have hs : roundabout.WellFormed := by decide
  have hcount : roundabout.connections.countP roundabout.leavesReachable = 6 := by cbv
  have horder : roundabout.computeOrder.map (·.1) = .ok 6 := by cbv
  have hfits : roundabout.computeOrder ≠ .error .overflow := by
    intro h
    rw [h] at horder
    cases horder
  obtain ⟨t, start, w, hresult, hconcl⟩ := hs.traversal_of_computeOrder hfits
  exact ⟨hs, hfits, t, start, w, hcount ▸ hresult, hconcl⟩

end StoryGraph.Scene
