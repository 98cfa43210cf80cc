import Mathlib.Data.List.Forall2
import StoryGraph.Proofs.Scene.Recursion

/-!
# What an order walk depends on

A walk does not read all of a scene. It reads where connections end and which connections leave there;
of a bubble it reads the uid, whether it is locked, and the order if it is. Scenes that agree in this are
walked in step, also if their connections go by other ids: the walks take as many connections and give the
same orders, or neither has an order left. What ordering makes of a well-formed scene follows from that
alone: each bubble has the order that was given to it last.
-/

namespace StoryGraph

namespace Bubble

/-- What a walk reads of a bubble. -/
def stamp (b : Bubble) : Uid × Option Int64 := (b.uid, if b.locked then some b.order else none)

/-- The order of a bubble at which a connection arrives that carries an order. -/
def arrival (b : Bubble) (order : Int64) : Int64 := if b.locked then b.order else order

/-- What ordering reads of a bubble. -/
def view (b : Bubble) : (Uid × BubbleType × List Uid) × Uid × Option Int64 := (b.shape, b.stamp)

/-- The order of a bubble once orders have been given, the last one first. A start that is not locked is
put in front before. -/
def orderAfter (given : List (Uid × Int64)) (b : Bubble) : Int64 :=
  (given.lookup b.uid).getD (if b.isStart && !b.locked then 0 else b.order)

/-- The order of a bubble that is not locked is not read. -/
theorem view_withOrder {b : Bubble} {order : Int64} (h : b.locked → order = b.order) :
    view { b with order } = b.view := by
  by_cases hlocked : b.locked
  · rw [h hlocked]
  · simp [view, shape, stamp, hlocked, type, optionUids, options]

variable {b b' : Bubble}

theorem stamp_eq_iff :
    b.stamp = b'.stamp ↔
      b.uid = b'.uid ∧ b.locked = b'.locked ∧ (b.locked → b.order = b'.order) := by
  unfold stamp
  rw [Prod.mk.injEq, and_congr_right_iff]
  intro _
  cases b.locked <;> cases b'.locked <;> simp

theorem arrival_eq_of_stamp (h : b.stamp = b'.stamp) (order : Int64) :
    b.arrival order = b'.arrival order := by
  obtain ⟨-, hlocked, horder⟩ := stamp_eq_iff.mp h
  unfold arrival
  rw [← hlocked]
  split
  · exact horder ‹_›
  · rfl

end Bubble

namespace Scene

/-! ## Induction along a walk -/

/-- What a walk has done once it has arrived at a bubble. -/
def Walk.arrive (w : Walk) (id : ConnectionId) (b : Bubble) (order : Int64) : Walk :=
  ⟨id :: w.done, if b.locked then w.given else (b.uid, order) :: w.given⟩

variable {s t : Scene}

theorem walk_nil (w : Walk) : s.walk w [] = .ok w := by rw [walk]

theorem walk_of_arrive {w : Walk} {id : ConnectionId} {b : Bubble} (hid : id ∉ w.done)
    (hb : s.end? id = some b) (order : Int64) (pending : List (ConnectionId × Int64)) :
    s.walk w ((id, order) :: pending) =
      match s.onward? b (b.arrival order) with
      | none => .error .overflow
      | some onward => s.walk (w.arrive id b (b.arrival order)) (onward ++ pending) :=
  walk_of_end?_eq_some hid hb rfl pending

/-- What holds of a walk that is through holds of every walk if each step passes it back. -/
@[elab_as_elim]
theorem walk_induction {motive : Walk → List (ConnectionId × Int64) → Prop}
    (nil : ∀ w, motive w [])
    (again : ∀ w id order pending, id ∈ w.done → motive w pending → motive w ((id, order) :: pending))
    (nowhere : ∀ w id order pending, id ∉ w.done → s.end? id = none →
      motive ⟨id :: w.done, w.given⟩ pending → motive w ((id, order) :: pending))
    (arrive : ∀ w id order pending b, id ∉ w.done → s.end? id = some b →
      (∀ onward, s.onward? b (b.arrival order) = some onward →
        motive (w.arrive id b (b.arrival order)) (onward ++ pending)) →
      motive w ((id, order) :: pending))
    (w : Walk) (pending : List (ConnectionId × Int64)) : motive w pending := by
  induction w, pending using walk.induct s with
  | case1 w => exact nil w
  | case2 w id order pending hid ih => exact again w id order pending hid ih
  | case3 w id order pending hid hb ih => exact nowhere w id order pending hid hb ih
  | case4 w id order pending hid b hb order' hnone =>
      refine arrive w id order pending b hid hb ?_
      intro onward honward
      cases hnone.symm.trans honward
  | case5 w id order pending hid b hb order' given onward honward ih =>
      refine arrive w id order pending b hid hb ?_
      intro onward' honward'
      obtain rfl := Option.some.inj (honward.symm.trans honward')
      exact ih

/-- A walk fails only where no order is left. -/
theorem eq_of_walk_eq_error {w : Walk} {pending : List (ConnectionId × Int64)} {e : Error}
    (h : s.walk w pending = .error e) : e = .overflow := by
  induction w, pending using walk_induction (s := s) with
  | nil w => simp [walk_nil] at h
  | again w id order pending hid ih => exact ih (walk_of_mem hid ▸ h)
  | nowhere w id order pending hid hend ih => exact ih (walk_of_end?_eq_none hid hend ▸ h)
  | arrive w id order pending b hid hend ih =>
      rw [walk_of_arrive hid hend] at h
      cases honward : s.onward? b (b.arrival order) with
      | none =>
          rw [honward] at h
          exact (Except.error.inj h).symm
      | some onward =>
          rw [honward] at h
          exact ih onward honward h

/-! ## Walks in step -/

/-- What a walk comes to: how many connections it took, and the orders it gave. -/
def Walk.outcome (w : Walk) : Nat × List (Uid × Int64) := (w.done.length, w.given)

/-- `Abreast R s t`: a walk cannot tell two scenes apart whose connections go by ids that `R` pairs. -/
structure Abreast (R : ConnectionId → ConnectionId → Prop) (s t : Scene) : Prop where
  /-- No id has two partners. -/
  unique : Relator.BiUnique R
  /-- Paired connections end at bubbles that are alike. -/
  stamp_eq : ∀ {i j}, R i j → (s.end? i).map (·.stamp) = (t.end? j).map (·.stamp)
  /-- The connections that leave a uid are paired in order. -/
  links : ∀ u, List.Forall₂ (fun c d ↦ R c.id d.id) (s.links u) (t.links u)

variable {R : ConnectionId → ConnectionId → Prop}

/-- The ids are paired, and the orders are the same. -/
def Paired (R : ConnectionId → ConnectionId → Prop) (x y : ConnectionId × Int64) : Prop :=
  R x.1 y.1 ∧ x.2 = y.2

/-- From a bubble on, connections are taken in pairs. -/
theorem Abreast.onward (h : Abreast R s t) {b b' : Bubble} (huid : b.uid = b'.uid) (order : Int64) :
    Option.Rel (List.Forall₂ (Paired R)) (s.onward? b order) (t.onward? b' order) := by
  have hlinks := h.links b.uid
  unfold onward?
  rw [← huid]
  generalize s.links b.uid = cs at hlinks ⊢
  generalize t.links b.uid = ds at hlinks ⊢
  cases hlinks with
  | nil => exact .some .nil
  | cons hcd hlinks =>
      cases nextOrder? order with
      | none => exact .none
      | some next =>
          refine .some (.cons ⟨hcd, rfl⟩ ?_)
          rw [List.forall₂_map_left_iff, List.forall₂_map_right_iff]
          exact hlinks.imp fun c d hr ↦ ⟨hr, rfl⟩

theorem Abreast.end?_eq_none (h : Abreast R s t) {i j : ConnectionId} (hij : R i j)
    (hend : s.end? i = none) : t.end? j = none := by
  have hstamp := h.stamp_eq hij
  rw [hend] at hstamp
  exact Option.map_eq_none_iff.mp hstamp.symm

theorem Abreast.exists_end? (h : Abreast R s t) {i j : ConnectionId} (hij : R i j) {b : Bubble}
    (hend : s.end? i = some b) : ∃ b', t.end? j = some b' ∧ b'.stamp = b.stamp := by
  have hstamp := h.stamp_eq hij
  rw [hend] at hstamp
  exact Option.map_eq_some_iff.mp hstamp.symm

/-- Walks in step come to the same. The induction is along one of them, and takes the other with it. -/
theorem Abreast.outcome_eq (h : Abreast R s t) (v : Walk) (front : List (ConnectionId × Int64)) :
    ∀ w back, List.Forall₂ R v.done w.done → v.given = w.given → List.Forall₂ (Paired R) front back →
      (s.walk v front).map Walk.outcome = (t.walk w back).map Walk.outcome := by
  induction v, front using walk_induction (s := s) with
  | nil v =>
      rintro w _ hdone hgiven ⟨⟩
      rw [walk_nil, walk_nil]
      show Except.ok (v.done.length, v.given) = Except.ok (w.done.length, w.given)
      rw [hdone.length_eq, hgiven]
  | again v i order front hi ih =>
      rintro w _ hdone hgiven (_ | @⟨_, ⟨j, _⟩, _, back, ⟨hij, rfl⟩, hpending⟩)
      have hj : j ∈ w.done := (List.rel_mem h.unique hij hdone).mp hi
      rw [walk_of_mem hi, walk_of_mem hj]
      exact ih w back hdone hgiven hpending
  | nowhere v i order front hi hend ih =>
      rintro w _ hdone hgiven (_ | @⟨_, ⟨j, _⟩, _, back, ⟨hij, rfl⟩, hpending⟩)
      have hj : j ∉ w.done := mt (List.rel_mem h.unique hij hdone).mpr hi
      rw [walk_of_end?_eq_none hi hend, walk_of_end?_eq_none hj (h.end?_eq_none hij hend)]
      exact ih _ back (.cons hij hdone) hgiven hpending
  | arrive v i order front b hi hend ih =>
      rintro w _ hdone hgiven (_ | @⟨_, ⟨j, _⟩, _, back, ⟨hij, rfl⟩, hpending⟩)
      have hj : j ∉ w.done := mt (List.rel_mem h.unique hij hdone).mpr hi
      obtain ⟨b', hend', hstamp⟩ := h.exists_end? hij hend
      obtain ⟨huid, hlocked, -⟩ := Bubble.stamp_eq_iff.mp hstamp
      rw [walk_of_arrive hi hend, walk_of_arrive hj hend', Bubble.arrival_eq_of_stamp hstamp]
      have honward := h.onward huid.symm (b.arrival order)
      generalize s.onward? b (b.arrival order) = front' at ih honward ⊢
      generalize t.onward? b' (b.arrival order) = back' at honward ⊢
      cases honward with
      | none => rfl
      | some honward =>
          refine ih _ rfl _ _ (.cons hij hdone) ?_ (List.rel_append honward hpending)
          simp only [Walk.arrive, hlocked, huid, hgiven]

/-! ## Scenes in step -/

theorem slots_eq_of_view (hview : ∀ u, (s.bubble? u).map (·.view) = (t.bubble? u).map (·.view)) (u : Uid) :
    s.slots u = t.slots u := by
  have hu := hview u
  cases hb : s.bubble? u with
  | none =>
      rw [hb] at hu
      have hb' : t.bubble? u = none := Option.map_eq_none_iff.mp hu.symm
      simp only [slots, hb, hb']
  | some b =>
      rw [hb] at hu
      obtain ⟨b', hb', heq⟩ := Option.map_eq_some_iff.mp hu.symm
      rw [slots_of_bubble? hb, slots_of_bubble? hb']
      exact Bubble.slots_eq_of_shape (congrArg (·.1) heq).symm

/-- Scenes are walked in step if their bubbles look the same, and their connections do but for the ids. -/
theorem Abreast.of_view (hunique : Relator.BiUnique R)
    (hview : ∀ u, (s.bubble? u).map (·.view) = (t.bubble? u).map (·.view))
    (hlink : ∀ slot, Option.Rel (fun c d ↦ R c.id d.id) (s.link? slot) (t.link? slot))
    (htarget : ∀ {i j}, R i j → (s.connection? i).map (·.target) = (t.connection? j).map (·.target)) :
    Abreast R s t where
  unique := hunique
  stamp_eq := by
    intro i j hij
    have hstamp : ∀ u, (s.bubble? u).map (·.stamp) = (t.bubble? u).map (·.stamp) := by
      intro u
      have hsnd := congrArg (Option.map (·.2)) (hview u)
      rwa [Option.map_map, Option.map_map] at hsnd
    have hend : ∀ (s : Scene) (i : ConnectionId), (s.end? i).map (·.stamp) =
        ((s.connection? i).map (·.target)).bind fun u ↦ (s.bubble? u).map (·.stamp) := by
      intro s i
      unfold end?
      cases s.connection? i <;> rfl
    rw [hend, hend, htarget hij]
    exact congrArg _ (funext hstamp)
  links := by
    intro u
    rw [Scene.links, Scene.links, slots_eq_of_view hview]
    refine List.rel_filterMap (R := Eq) ?_ (List.forall₂_eq_eq_eq ▸ rfl)
    rintro slot _ rfl
    exact hlink slot

/-- Scenes are walked in step if their bubbles look the same, and they have the same connections. -/
theorem Abreast.of_connections_eq
    (hview : ∀ u, (s.bubble? u).map (·.view) = (t.bubble? u).map (·.view))
    (hconnections : s.connections = t.connections) : Abreast Eq s t := by
  have hunique : Relator.BiUnique (α := ConnectionId) Eq :=
    ⟨fun _ _ _ hi hj ↦ hi.trans hj.symm, fun _ _ _ hi hj ↦ hi.symm.trans hj⟩
  refine .of_view hunique hview ?_ ?_
  · intro slot
    rw [link?, hconnections, ← link?]
    cases t.link? slot with
    | none => exact .none
    | some c => exact .some rfl
  · rintro i _ rfl
    rw [connection?, hconnections, ← connection?]

/-- What the walk from a uid comes to. -/
def course (s : Scene) (u : Uid) : Except Error (Nat × List (Uid × Int64)) :=
  match (s.links u).head? with
  | none => .ok (0, [])
  | some first => (s.walk ⟨[], []⟩ [(first.id, 0)]).map Walk.outcome

/-- The walk from a uid. -/
def walkFrom (s : Scene) (u : Uid) : Except Error Walk :=
  match (s.links u).head? with
  | none => .ok ⟨[], []⟩
  | some first => s.walk ⟨[], []⟩ [(first.id, 0)]

theorem course_eq_walkFrom (s : Scene) (u : Uid) : s.course u = (s.walkFrom u).map Walk.outcome := by
  unfold course walkFrom
  cases (s.links u).head? <;> rfl

theorem exists_walkFrom_of_course {u : Uid} {count : Nat} {given : List (Uid × Int64)}
    (h : s.course u = .ok (count, given)) : ∃ w, s.walkFrom u = .ok w ∧ w.given = given := by
  rw [course_eq_walkFrom] at h
  obtain ⟨w, hwalk, heq⟩ := map_eq_ok.mp h
  exact ⟨w, hwalk, congrArg Prod.snd heq⟩

theorem Abreast.course_eq (h : Abreast R s t) (u : Uid) : s.course u = t.course u := by
  have hlinks := h.links u
  unfold course
  cases hs : s.links u with
  | nil =>
      rw [hs, List.forall₂_nil_left_iff] at hlinks
      rw [hlinks]
      rfl
  | cons c cs =>
      rw [hs] at hlinks
      obtain ⟨d, ds, hcd, -, ht⟩ := List.forall₂_cons_left_iff.mp hlinks
      rw [ht]
      exact h.outcome_eq _ _ _ _ .nil rfl (.cons ⟨hcd, rfl⟩ .nil)

/-! ## Other orders -/

/-- The scene with other orders. -/
def reorder (s : Scene) (f : Bubble → Int64) : Scene :=
  { s with bubbles := s.bubbles.map fun b ↦ { b with order := f b } }

variable {f g : Bubble → Int64}

theorem reorder_reorder (s : Scene) (f g : Bubble → Int64) :
    (s.reorder f).reorder g = s.reorder fun b ↦ g { b with order := f b } := by
  simp only [reorder, List.map_map]
  rfl

theorem reorder_congr (h : ∀ b ∈ s.bubbles, f b = g b) : s.reorder f = s.reorder g := by
  unfold reorder
  rw [List.map_congr_left fun b hb ↦ by rw [h b hb]]

theorem reorder_order (s : Scene) : s.reorder (·.order) = s := by
  unfold reorder
  rw [List.map_id']

theorem bubble?_reorder (s : Scene) (f : Bubble → Int64) (u : Uid) :
    (s.reorder f).bubble? u = (s.bubble? u).map fun b ↦ { b with order := f b } := List.find?_map

theorem start?_reorder (s : Scene) (f : Bubble → Int64) :
    (s.reorder f).start? = s.start?.map fun b ↦ { b with order := f b } := List.find?_map

theorem wellFormed_reorder (h : s.WellFormed) (f : Bubble → Int64) : (s.reorder f).WellFormed := by
  refine h.reshape ?_
  rw [List.map_map]
  rfl

/-- A walk does not see other orders of bubbles that are not locked. -/
theorem abreast_reorder (h : ∀ b ∈ s.bubbles, b.locked → f b = b.order) :
    Abreast Eq (s.reorder f) s := by
  refine .of_connections_eq ?_ rfl
  intro u
  rw [bubble?_reorder]
  cases hb : s.bubble? u with
  | none => rfl
  | some b => exact congrArg some (Bubble.view_withOrder (h b (mem_of_bubble? hb)))

/-! ## The orders that ordering leaves -/

/-- The walk that ordering takes. -/
def orderWalk (s : Scene) : Except Error Walk :=
  match s.start? with
  | none => .error (.missingStart s.name)
  | some start => s.pinStart.walkFrom start.uid

/-- Ordering counts the connections that its walk takes, and gives the orders that it gives. -/
theorem computeOrder_eq_orderWalk (s : Scene) :
    s.computeOrder = s.orderWalk.map fun w ↦ (w.done.length, s.pinStart.withOrders w.given) := by
  unfold computeOrder orderWalk
  cases s.start? with
  | none => rfl
  | some start =>
      simp only [walkFrom]
      cases (s.pinStart.links start.uid).head? with
      | none => rfl
      | some first =>
          simp only [orderFrom]
          cases s.pinStart.walk ⟨[], []⟩ [(first.id, 0)] <;> rfl

theorem exists_orderWalk {count : Nat} (horder : s.computeOrder = .ok (count, t)) :
    ∃ w, s.orderWalk = .ok w ∧ count = w.done.length ∧ t = s.pinStart.withOrders w.given := by
  rw [computeOrder_eq_orderWalk] at horder
  obtain ⟨w, hwalk, heq⟩ := map_eq_ok.mp horder
  obtain ⟨rfl, rfl⟩ := Prod.mk.inj heq
  exact ⟨w, hwalk, rfl, rfl⟩

/-- A scene with a start is ordered, unless an order overflows. -/
theorem exists_of_computeOrder_ne {start : Bubble} (hstart : s.start? = some start)
    (hfits : s.computeOrder ≠ .error .overflow) : ∃ count t, s.computeOrder = .ok (count, t) := by
  cases horder : s.computeOrder with
  | ok result => exact ⟨result.1, result.2, rfl⟩
  | error e =>
      refine absurd (horder.trans (congrArg _ ?_)) hfits
      rw [computeOrder_eq_orderWalk, orderWalk, hstart] at horder
      have hwalk : s.pinStart.walkFrom start.uid = .error e := map_eq_error.mp horder
      unfold walkFrom at hwalk
      split at hwalk
      · cases hwalk
      · exact eq_of_walk_eq_error hwalk

/-- The scene with the start in front and with the orders that were given. -/
def restamp (s : Scene) (given : List (Uid × Int64)) : Scene := s.reorder (·.orderAfter given)

theorem countP_uid_le_one (h : (s.bubbles.map (·.uid)).Nodup) (u : Uid) :
    s.bubbles.countP (·.uid = u) ≤ 1 := by
  have hcount := List.nodup_iff_count_le_one.mp h u
  rwa [List.count, List.countP_map] at hcount

theorem WellFormed.pinStart_eq (h : s.WellFormed) :
    s.pinStart = s.reorder fun b ↦ if b.isStart && !b.locked then 0 else b.order := by
  unfold pinStart reorder
  rw [updateFirst_eq_map (Nat.le_of_eq h.start_unique)]
  congr 2
  funext b
  have hpin : (if b.isStart && !b.locked then 0 else b.order) =
      if b.isStart then (if b.locked then b.order else 0) else b.order := by
    cases b.isStart <;> cases b.locked <;> rfl
  beta_reduce
  rw [hpin]
  split
  · split <;> rfl
  · rfl

theorem withOrders_eq (h : (s.bubbles.map (·.uid)).Nodup) (given : List (Uid × Int64)) :
    s.withOrders given = s.reorder fun b ↦ (given.lookup b.uid).getD b.order := by
  induction given with
  | nil => exact s.reorder_order.symm
  | cons entry given ih =>
      obtain ⟨u, order⟩ := entry
      show (s.withOrders given).setOrder u order = _
      rw [ih]
      unfold setOrder updateBubble reorder
      congr 1
      rw [updateFirst_eq_map (by rw [List.countP_map]; exact countP_uid_le_one h u), List.map_map]
      refine List.map_congr_left fun b _ ↦ ?_
      by_cases hu : b.uid = u
      · simp [hu]
      · simp [hu, List.lookup_cons, beq_eq_false_iff_ne.mpr hu]

/-- A walk does not see whether a start that is not locked has been put in front. -/
theorem WellFormed.abreast_pinStart (h : s.WellFormed) : Abreast Eq s.pinStart s := by
  rw [h.pinStart_eq]
  exact abreast_reorder fun b _ hlocked ↦ by simp [hlocked]

/-- Ordering a well-formed scene is to give it the orders of the walk from its start. -/
theorem WellFormed.computeOrder_eq (h : s.WellFormed) {start : Bubble} (hstart : s.start? = some start) :
    s.computeOrder = (s.course start.uid).map fun r ↦ (r.1, s.restamp r.2) := by
  have hgive (given : List (Uid × Int64)) : s.pinStart.withOrders given = s.restamp given := by
    have hnodup : (s.pinStart.bubbles.map (·.uid)).Nodup := by
      rw [h.pinStart_eq, reorder, List.map_map]
      exact h.nodup_bubbleUids
    rw [withOrders_eq hnodup, h.pinStart_eq, reorder_reorder]
    rfl
  rw [Scene.computeOrder, hstart, ← h.abreast_pinStart.course_eq, course]
  simp only
  cases (s.pinStart.links start.uid).head? with
  | none =>
      show Except.ok (0, s.pinStart.withOrders []) = Except.ok (0, s.restamp [])
      rw [hgive]
  | some first =>
      simp only [orderFrom, ← hgive]
      cases s.pinStart.walk ⟨[], []⟩ [(first.id, 0)] <;> rfl

theorem WellFormed.exists_course (h : s.WellFormed) {start : Bubble} (hstart : s.start? = some start)
    {count : Nat} (horder : s.computeOrder = .ok (count, t)) :
    ∃ given, s.course start.uid = .ok (count, given) ∧ t = s.restamp given := by
  rw [h.computeOrder_eq hstart] at horder
  obtain ⟨⟨_, given⟩, hcourse, heq⟩ := map_eq_ok.mp horder
  obtain ⟨rfl, rfl⟩ := Prod.mk.inj heq
  exact ⟨given, hcourse, rfl⟩

end Scene

end StoryGraph
