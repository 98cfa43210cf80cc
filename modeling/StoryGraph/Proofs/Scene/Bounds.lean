import Mathlib.Algebra.Group.Int.Defs
import Mathlib.Data.Finset.Max
import StoryGraph.Proofs.Scene.Ways

/-!
# How far orders go

A walk begins with the order 0, and a locked bubble puts its own order in. From there on each connection
takes it one order further, and no connection is taken twice. So the orders that it gives are not below
all of those, and not above all of them by more than the number of connections. An order can only overflow
where a locked bubble is near the top already.
-/

namespace StoryGraph.Scene

variable {s t : Scene}

/-- The orders that a walk from the start builds on: the one that it begins with, and those of the locked
bubbles other than the start that it can reach. -/
def seeds (s : Scene) : List Int :=
  0 :: (s.bubbles.filter fun b ↦ b.locked && !b.isStart && b.uid ∈ s.reachable).map (·.order.toInt)

theorem mem_seeds {z : Int} :
    z ∈ s.seeds ↔ z = 0 ∨ ∃ b ∈ s.bubbles, b.locked ∧ b.isStart = false ∧ b.uid ∈ s.reachable ∧
      b.order.toInt = z := by
  simp [seeds, and_assoc]

theorem exists_isLeast_seeds (s : Scene) : ∃ lo, IsLeast {z | z ∈ s.seeds} lo := by
  have hne : s.seeds.toFinset.Nonempty := ⟨0, by simp [mem_seeds]⟩
  refine ⟨s.seeds.toFinset.min' hne, ?_⟩
  simpa using s.seeds.toFinset.isLeast_min' hne

theorem exists_isGreatest_seeds (s : Scene) : ∃ hi, IsGreatest {z | z ∈ s.seeds} hi := by
  have hne : s.seeds.toFinset.Nonempty := ⟨0, by simp [mem_seeds]⟩
  refine ⟨s.seeds.toFinset.max' hne, ?_⟩
  simpa using s.seeds.toFinset.isGreatest_max' hne

/-! ## What a walk carries -/

theorem eq_maxValue_of_onward? {b : Bubble} {order : Int64} (h : s.onward? b order = none) :
    order = Int64.maxValue := by
  unfold onward? at h
  split at h
  · cases h
  · rw [Option.map_eq_none_iff] at h
    unfold nextOrder? at h
    split at h
    · assumption
    · cases h

/-- `w.Within lo hi pending`: the orders that a walk has given and those that it carries are not below
`lo`, and not above `hi` by more than the number of connections taken. -/
structure Walk.Within (w : Walk) (lo hi : Int) (pending : List (ConnectionId × Int64)) : Prop where
  pending : ∀ id order, (id, order) ∈ pending → lo ≤ order.toInt ∧ order.toInt ≤ hi + w.done.length
  given : ∀ u order, (u, order) ∈ w.given → lo ≤ order.toInt ∧ order.toInt ≤ hi + w.done.length

variable {w w' : Walk} {pending pending' : List (ConnectionId × Int64)} {lo hi : Int}

/-- A walk arrives with an order that it carries, or with that of a locked bubble. -/
theorem Walk.Within.arrival {id : ConnectionId} {order : Int64}
    (hw : w.Within lo hi ((id, order) :: pending)) {b : Bubble}
    (hlocked : b.locked → lo ≤ b.order.toInt ∧ b.order.toInt ≤ hi) :
    lo ≤ (b.arrival order).toInt ∧ (b.arrival order).toInt ≤ hi + w.done.length := by
  unfold Bubble.arrival
  split
  · obtain ⟨hlo, hhi⟩ := hlocked ‹_›
    omega
  · exact hw.pending id order List.mem_cons_self

theorem WalkStep.within
    (hlocked : ∀ id b, w.Knows pending id → s.end? id = some b → b.locked →
      lo ≤ b.order.toInt ∧ b.order.toInt ≤ hi)
    (h : s.WalkStep w pending w' pending') (hw : w.Within lo hi pending) : w'.Within lo hi pending' := by
  cases h with
  | again =>
      exact ⟨fun id order hmem ↦ hw.pending id order (List.mem_cons_of_mem _ hmem), hw.given⟩
  | nowhere =>
      constructor
      · intro id order hmem
        have := hw.pending id order (List.mem_cons_of_mem _ hmem)
        simp only [List.length_cons]
        omega
      · intro u order hmem
        have := hw.given u order hmem
        simp only [List.length_cons]
        omega
  | @arrive id order _ b onward _ hend honward =>
      obtain ⟨hlo, hhi⟩ := hw.arrival (hlocked id b (.inr List.mem_cons_self) hend)
      constructor
      · intro i next hmem
        simp only [Walk.arrive, List.length_cons]
        rcases List.mem_append.mp hmem with hmem | hmem
        · have := toInt_of_nextOrder? (of_mem_onward? honward hmem).1
          omega
        · have := hw.pending i next (List.mem_cons_of_mem _ hmem)
          omega
      · intro u given hmem
        simp only [Walk.arrive, List.length_cons] at hmem ⊢
        split at hmem
        · have := hw.given u given hmem
          omega
        · rcases List.mem_cons.mp hmem with heq | hmem
          · obtain ⟨rfl, rfl⟩ := Prod.mk.inj heq
            omega
          · have := hw.given u given hmem
            omega

/-! ## The walk from the start -/

/-- `s.Ascends start lo hi w pending`: what is true all along the walk from a start. It takes no connection
twice, it knows of links from what can be reached only, and it arrives at no start. -/
structure Ascends (s : Scene) (start : Bubble) (lo hi : Int) (w : Walk)
    (pending : List (ConnectionId × Int64)) : Prop where
  nodup : w.done.Nodup
  sources : s.Sources start.uid w pending
  grounds : s.Grounds (fun u ↦ s.LeadsTo start.uid u ∧ u ≠ start.uid) w pending
  within : w.Within lo hi pending

/-- There are no more connections taken than there are. -/
theorem Ascends.length_le {start : Bubble} (h : s.Ascends start lo hi w pending) {ids : List ConnectionId}
    (hnodup : ids.Nodup) (hids : ∀ id ∈ ids, w.Knows pending id) : ids.length ≤ s.connections.length := by
  have hsub : ids ⊆ s.connections.map (·.id) := by
    intro id hid
    obtain ⟨u, -, hlink⟩ := h.sources id (hids id hid)
    obtain ⟨c, hc, rfl⟩ := List.mem_map.mp hlink
    exact List.mem_map_of_mem (mem_connections_of_mem_links hc)
  simpa using (List.subperm_of_subset hnodup hsub).length_le

namespace WellFormed

variable (h : s.WellFormed) {start : Bubble} (hstart : s.start? = some start)
  (hseeds : ∀ z ∈ s.seeds, lo ≤ z ∧ z ≤ hi)

include h hstart hseeds

/-- The order of a locked bubble where the walk arrives is one that it builds on. -/
theorem seed_of_ascends (hw : s.Ascends start lo hi w pending) {id : ConnectionId} {b : Bubble}
    (hid : w.Knows pending id) (hend : s.end? id = some b) (hlocked : b.locked) :
    lo ≤ b.order.toInt ∧ b.order.toInt ≤ hi := by
  obtain ⟨hleads, hne⟩ := hw.grounds.ends id hid b hend
  have hb := mem_of_bubble? (bubble?_of_end? hend)
  have hno : b.isStart = false := Bool.eq_false_iff.mpr (mt (h.isStart_iff_uid_eq hstart hb).mp hne)
  exact hseeds _ (mem_seeds.mpr (.inr ⟨b, hb, hlocked, hno, (mem_reachable_iff hstart).mpr hleads, rfl⟩))

theorem ascends_step (hstep : s.WalkStep w pending w' pending') (hw : s.Ascends start lo hi w pending) :
    s.Ascends start lo hi w' pending' where
  nodup := hstep.nodup_done hw.nodup
  sources := hstep.sources h hw.sources
  grounds := hstep.grounds (fun _ hu _ hc _ ↦ h.leads_of_link hstart hu.1 hc) hw.grounds
  within := hstep.within (fun _ _ ↦ h.seed_of_ascends hstart hseeds hw) hw.within

/-- The walk begins with 0. -/
theorem ascends_first {first : Connection} (hfirst : first ∈ s.links start.uid) :
    s.Ascends start lo hi ⟨[], []⟩ [(first.id, 0)] := by
  have hknows : ∀ id, Walk.Knows ⟨[], []⟩ [(first.id, 0)] id → id = first.id := by
    simp [Walk.Knows]
  refine ⟨List.nodup_nil, ?_, ⟨?_, by simp⟩, ⟨?_, by simp⟩⟩
  · intro id hid
    exact ⟨start.uid, .refl, hknows id hid ▸ List.mem_map_of_mem hfirst⟩
  · intro id hid b hb
    exact h.leads_of_link hstart .refl hfirst (hknows id hid ▸ hb)
  · intro id order hmem
    obtain ⟨-, rfl⟩ : id = first.id ∧ order = 0 := by simpa using hmem
    simpa using hseeds 0 (mem_seeds.mpr (.inl rfl))

/-- The orders that the walk gives are not below those that it builds on, and not above them by more than
the number of connections. -/
theorem within_of_walkFrom (hwalk : s.walkFrom start.uid = .ok w) {u : Uid} {order : Int64}
    (hgiven : (u, order) ∈ w.given) :
    lo ≤ order.toInt ∧ order.toInt ≤ hi + s.connections.length := by
  unfold walkFrom at hwalk
  split at hwalk
  · obtain rfl := Except.ok.inj hwalk
    cases hgiven
  · rename_i first hfirst
    have hw := inv_of_walk (h.ascends_step hstart hseeds)
      (h.ascends_first hstart hseeds (List.mem_of_mem_head? hfirst)) hwalk
    have hlength := hw.length_le hw.nodup fun _ ↦ .inl
    have := hw.within.given u order hgiven
    omega

/-- If the walk fails, it builds on an order so near the top that the connections get beyond it. -/
theorem lt_of_walkFrom_eq_error {e : Error} (hwalk : s.walkFrom start.uid = .error e) :
    e = .overflow ∧ 2 ^ 63 - 1 < hi + s.connections.length := by
  unfold walkFrom at hwalk
  split at hwalk
  · cases hwalk
  · rename_i first hfirst
    refine ⟨eq_of_walk_eq_error hwalk, ?_⟩
    obtain ⟨v, id, order, rest, b, hw, hid, hend, honward⟩ :=
      exists_of_walk_eq_error (h.ascends_step hstart hseeds)
        (h.ascends_first hstart hseeds (List.mem_of_mem_head? hfirst)) hwalk
    have hknows : v.Knows ((id, order) :: rest) id := .inr List.mem_cons_self
    -- the connection at which the walk fails is one more than those that it has taken
    have hlength : (id :: v.done).length ≤ s.connections.length :=
      hw.length_le (List.nodup_cons.mpr ⟨hid, hw.nodup⟩)
        (List.forall_mem_cons.mpr ⟨hknows, fun _ ↦ .inl⟩)
    obtain ⟨-, hhi⟩ := hw.within.arrival (h.seed_of_ascends hstart hseeds hw hknows hend)
    have hmax : Int64.maxValue.toInt = 2 ^ 63 - 1 := by decide
    rw [eq_maxValue_of_onward? honward, hmax] at hhi
    rw [List.length_cons] at hlength
    omega

/-! ## Ordering -/

omit hseeds in
/-- The walk that ordering takes gives what the walk from the start gives. -/
theorem exists_walkFrom_given (hwalk : s.orderWalk = .ok w) :
    ∃ w', s.walkFrom start.uid = .ok w' ∧ w'.given = w.given := by
  simp only [orderWalk, hstart] at hwalk
  have hcourse := h.abreast_pinStart.course_eq start.uid
  rw [course_eq_walkFrom, hwalk] at hcourse
  exact exists_walkFrom_of_course hcourse.symm

omit hseeds in
theorem walkFrom_of_computeOrder_eq_error {e : Error} (horder : s.computeOrder = .error e) :
    s.walkFrom start.uid = .error e := by
  rw [h.computeOrder_eq hstart, course_eq_walkFrom] at horder
  exact map_eq_error.mp (map_eq_error.mp horder)

/-- A bubble keeps its order or gets one that is not far from those that the walk builds on. -/
theorem within_of_computeOrder {count : Nat} (horder : s.computeOrder = .ok (count, t)) {u : Uid}
    {order : Int64} (hu : t.order? u = some order) :
    s.order? u = some order ∨ lo ≤ order.toInt ∧ order.toInt ≤ hi + s.connections.length := by
  obtain ⟨given, hcourse, rfl⟩ := h.exists_course hstart horder
  obtain ⟨w, hwalk, rfl⟩ := exists_walkFrom_of_course hcourse
  obtain ⟨b, hb, rfl⟩ : ∃ b, s.bubble? u = some b ∧ b.orderAfter w.given = order := by
    rw [order?, restamp, bubble?_reorder, Option.map_map] at hu
    exact Option.map_eq_some_iff.mp hu
  rw [order?, hb, Option.map_some, Option.some.injEq]
  unfold Bubble.orderAfter
  cases hlookup : w.given.lookup b.uid with
  | some order =>
      obtain ⟨before, after, heq, -⟩ := List.lookup_eq_some_iff.mp hlookup
      exact .inr (h.within_of_walkFrom hstart hseeds hwalk (heq ▸ List.mem_append_cons_self))
  | none =>
      rw [Option.getD_none]
      split
      · have := hseeds 0 (mem_seeds.mpr (.inl rfl))
        rw [Int64.toInt_zero]
        omega
      · exact .inl rfl

end WellFormed

/-- Ordering a well-formed scene fails only where a locked bubble other than the start can be reached whose
order is nearer to the top than the number of connections. Otherwise the orders that it gives lie between
the least and the greatest of 0 and the orders of such bubbles, or above the greatest by no more than that
number. Without locked bubbles it does not fail. -/
theorem WellFormed.orders_bounded (h : s.WellFormed) (hfew : s.connections.length < 2 ^ 63) :
    ∃ lo hi, IsLeast {z | z ∈ s.seeds} lo ∧ IsGreatest {z | z ∈ s.seeds} hi ∧
      (∀ e, s.computeOrder = .error e → e = .overflow ∧
        ∃ b ∈ s.bubbles, b.locked ∧ b.isStart = false ∧ b.uid ∈ s.reachable ∧
          2 ^ 63 - 1 - s.connections.length < b.order.toInt) ∧
      (∀ count t, s.computeOrder = .ok (count, t) →
        (∃ w, s.orderWalk = .ok w ∧ t = s.pinStart.withOrders w.given ∧
          ∀ u order, (u, order) ∈ w.given →
            lo ≤ order.toInt ∧ order.toInt ≤ hi + s.connections.length) ∧
        ∀ u order, t.order? u = some order → s.order? u = some order ∨
          lo ≤ order.toInt ∧ order.toInt ≤ hi + s.connections.length) ∧
      ((∀ b ∈ s.bubbles, b.locked = false) → ∃ count t, s.computeOrder = .ok (count, t)) := by
  obtain ⟨start, hstart, -⟩ := h.exists_start
  obtain ⟨lo, hlo⟩ := s.exists_isLeast_seeds
  obtain ⟨hi, hhi⟩ := s.exists_isGreatest_seeds
  have hseeds : ∀ z ∈ s.seeds, lo ≤ z ∧ z ≤ hi := fun z hz ↦ ⟨hlo.2 hz, hhi.2 hz⟩
  have hfails : ∀ e, s.computeOrder = .error e → e = .overflow ∧
      ∃ b ∈ s.bubbles, b.locked ∧ b.isStart = false ∧ b.uid ∈ s.reachable ∧
        2 ^ 63 - 1 - s.connections.length < b.order.toInt := by
    intro e horder
    obtain ⟨he, hlt⟩ := h.lt_of_walkFrom_eq_error hstart hseeds
      (h.walkFrom_of_computeOrder_eq_error hstart horder)
    refine ⟨he, ?_⟩
    rcases mem_seeds.mp hhi.1 with rfl | ⟨b, hb, hlocked, hno, hreach, rfl⟩
    · omega
    · exact ⟨b, hb, hlocked, hno, hreach, by omega⟩
  refine ⟨lo, hi, hlo, hhi, hfails, ?_, ?_⟩
  · intro count t horder
    refine ⟨?_, fun u order ↦ h.within_of_computeOrder hstart hseeds horder⟩
    obtain ⟨w, hwalk, -, rfl⟩ := exists_orderWalk horder
    obtain ⟨w', hwalk', hgiven⟩ := h.exists_walkFrom_given hstart hwalk
    refine ⟨w, hwalk, rfl, fun u order hmem ↦ ?_⟩
    exact h.within_of_walkFrom hstart hseeds hwalk' (hgiven ▸ hmem)
  · intro hfree
    cases horder : s.computeOrder with
    | ok result => exact ⟨result.1, result.2, rfl⟩
    | error e =>
        obtain ⟨-, b, hb, hlocked, -⟩ := hfails e horder
        simp [hfree b hb] at hlocked

/-- A condition that is locked, and behind it a story that goes round by way of an action that is locked
below 0. -/
def lodge : Scene where
  name := "lodge"
  bubbles :=
    [⟨⟨0⟩, "", 0, false, .start⟩, ⟨⟨1⟩, "", 40, true, .condition "late"⟩, ⟨⟨2⟩, "", 9, false, .story "in"⟩,
      ⟨⟨3⟩, "", -7, true, .action "rest"⟩, ⟨⟨4⟩, "", 3, false, .story "out"⟩,
      ⟨⟨5⟩, "", 99, true, .story "elsewhere"⟩]
  connections :=
    [⟨⟨0⟩, ⟨⟨0⟩, .next⟩, ⟨1⟩, .south, .north⟩, ⟨⟨1⟩, ⟨⟨1⟩, .whenTrue⟩, ⟨2⟩, .south, .north⟩,
      ⟨⟨2⟩, ⟨⟨1⟩, .whenFalse⟩, ⟨4⟩, .south, .north⟩, ⟨⟨3⟩, ⟨⟨2⟩, .next⟩, ⟨3⟩, .south, .north⟩,
      ⟨⟨4⟩, ⟨⟨3⟩, .next⟩, ⟨2⟩, .south, .north⟩]

theorem orders_bounded_lodge :
    lodge.WellFormed ∧ lodge.connections.length < 2 ^ 63 ∧
      ∃ count t, lodge.computeOrder = .ok (count, t) ∧
        ∀ u order, t.order? u = some order → lodge.order? u = some order ∨
          -7 ≤ order.toInt ∧ order.toInt ≤ 45 := by
  have hs : lodge.WellFormed := by decide
  have hfew : lodge.connections.length < 2 ^ 63 := by decide
  have hseeds : lodge.seeds = [0, 40, -7] := by cbv
  obtain ⟨lo, hi, hlo, hhi, -, horders, -⟩ := hs.orders_bounded hfew
  rw [hseeds] at hlo hhi
  obtain rfl : lo = -7 := hlo.unique ⟨by simp, by simp [lowerBounds]⟩
  obtain rfl : hi = 40 := hhi.unique ⟨by simp, by simp [upperBounds]⟩
  have hcount : lodge.computeOrder.map (·.1) = .ok 5 := by cbv
  obtain ⟨⟨count, t⟩, horder, -⟩ := map_eq_ok.mp hcount
  exact ⟨hs, hfew, count, t, horder, (horders _ _ horder).2⟩

end StoryGraph.Scene
