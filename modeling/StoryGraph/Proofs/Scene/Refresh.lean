import StoryGraph.Proofs.Scene.Coverage

/-!
# Ordering again

Ordering a well-formed scene sets the order of its start and of every bubble that can be reached, unless it
is locked. It changes nothing else, and it does not read what it is going to set. So scenes that differ in
those orders only are ordered alike, and a scene that has been ordered stays as it is.
-/

namespace StoryGraph.Scene

variable {s t : Scene} {f : Bubble → Int64}

/-! ## Other orders, same graph -/

theorem links_reorder (s : Scene) (f : Bubble → Int64) (u : Uid) : (s.reorder f).links u = s.links u := by
  have hslots : (s.reorder f).slots u = s.slots u := by
    unfold slots
    rw [bubble?_reorder]
    cases s.bubble? u <;> rfl
  rw [links, hslots]
  rfl

theorem explore_eq_of_links (h : ∀ u, s.links u = t.links u) (seen waiting : List Uid) :
    s.explore seen waiting = t.explore seen waiting := by
  induction seen, waiting using explore.induct s with
  | case1 seen => rw [explore_nil, explore_nil]
  | case2 seen u waiting found =>
      rename_i ih
      rw [explore_cons, explore_cons, ← h u]
      exact ih

theorem reachable_reorder (s : Scene) (f : Bubble → Int64) : (s.reorder f).reachable = s.reachable := by
  unfold reachable
  rw [start?_reorder]
  cases s.start? with
  | none => rfl
  | some start => exact explore_eq_of_links (s.links_reorder f) _ _

/-! ## The orders that ordering sets -/

/-- Whether ordering sets the order of a bubble. -/
def isPlaced (s : Scene) (b : Bubble) : Bool := !b.locked && (b.isStart || b.uid ∈ s.reachable)

/-- The scene without the orders that ordering sets: there 0 stands for them. -/
def unplaced (s : Scene) : Scene := s.reorder fun b ↦ if s.isPlaced b then 0 else b.order

theorem isPlaced_reorder (s : Scene) (f : Bubble → Int64) (b : Bubble) :
    (s.reorder f).isPlaced { b with order := f b } = s.isPlaced b := by
  unfold isPlaced
  rw [reachable_reorder]
  rfl

theorem unplaced_reorder (s : Scene) (f : Bubble → Int64) :
    (s.reorder f).unplaced = s.reorder fun b ↦ if s.isPlaced b then 0 else f b := by
  unfold unplaced
  rw [reorder_reorder]
  simp only [isPlaced_reorder]

/-- `s.Refreshes t`: a scene with other orders, where only those are others that ordering sets. They can
be any orders, as no bubble is twice in a well-formed scene. -/
def Refreshes (s t : Scene) : Prop :=
  ∃ f : Bubble → Int64, t = s.reorder f ∧ ∀ b ∈ s.bubbles, s.isPlaced b ∨ f b = b.order

/-- Without the orders that ordering sets the scenes are the same. -/
theorem Refreshes.unplaced_eq (h : s.Refreshes t) : t.unplaced = s.unplaced := by
  obtain ⟨f, rfl, hf⟩ := h
  rw [unplaced_reorder, unplaced]
  refine reorder_congr fun b hb ↦ ?_
  by_cases hplaced : s.isPlaced b
  · rw [if_pos hplaced, if_pos hplaced]
  · rw [if_neg hplaced, if_neg hplaced, (hf b hb).resolve_left hplaced]

theorem lookup_isSome_iff {given : List (Uid × Int64)} {u : Uid} :
    (given.lookup u).isSome ↔ u ∈ given.map (·.1) := by
  simp only [List.lookup_isSome_iff, List.mem_map, beq_iff_eq, @eq_comm _ u]

namespace WellFormed

variable {start : Bubble} {count : Nat} {given : List (Uid × Int64)}

/-- Ordering sets the orders of the start and of the bubbles that the walk from it gives orders to. -/
theorem isPlaced_iff (h : s.WellFormed) (hstart : s.start? = some start)
    (hcourse : s.course start.uid = .ok (count, given)) {b : Bubble} (hb : b ∈ s.bubbles) :
    s.isPlaced b ↔ (b.isStart && !b.locked) ∨ (given.lookup b.uid).isSome := by
  have hself := h.isStart_iff_uid_eq hstart hb
  rw [lookup_isSome_iff, h.mem_given_iff hstart hcourse, h.bubble?_uid hb]
  simp only [isPlaced, Bool.and_eq_true, Bool.or_eq_true, Bool.not_eq_true', decide_eq_true_eq,
    Option.some.injEq, exists_eq_left']
  tauto

/-- What ordering sets does not depend on what it was. -/
theorem orderAfter_of_isPlaced (h : s.WellFormed) (hstart : s.start? = some start)
    (hcourse : s.course start.uid = .ok (count, given)) {b : Bubble} (hb : b ∈ s.bubbles)
    (hplaced : s.isPlaced b) (order : Int64) :
    Bubble.orderAfter given { b with order } = b.orderAfter given := by
  unfold Bubble.orderAfter
  rcases (h.isPlaced_iff hstart hcourse hb).mp hplaced with hpin | hgiven
  · have hpin' : (Bubble.isStart { b with order } && !b.locked) = true := hpin
    rw [if_pos hpin, if_pos hpin']
  · obtain ⟨order', hlookup⟩ := Option.isSome_iff_exists.mp hgiven
    rw [hlookup]
    rfl

/-- What ordering does not set stays as it was. -/
theorem orderAfter_of_not_isPlaced (h : s.WellFormed) (hstart : s.start? = some start)
    (hcourse : s.course start.uid = .ok (count, given)) {b : Bubble} (hb : b ∈ s.bubbles)
    (hplaced : ¬ s.isPlaced b) : b.orderAfter given = b.order := by
  rw [h.isPlaced_iff hstart hcourse hb, not_or, Option.not_isSome_iff_eq_none] at hplaced
  rw [Bubble.orderAfter, hplaced.2, if_neg hplaced.1]
  rfl

/-- Ordering does not read what it is going to set. -/
theorem computeOrder_unplaced (h : s.WellFormed) : s.unplaced.computeOrder = s.computeOrder := by
  obtain ⟨start, hstart, -⟩ := h.exists_start
  have habreast : Abreast Eq s.unplaced s :=
    abreast_reorder fun b _ hlocked ↦ by simp [isPlaced, hlocked]
  have hstart' := s.start?_reorder fun b ↦ if s.isPlaced b then 0 else b.order
  rw [hstart] at hstart'
  have hcompute := (wellFormed_reorder h fun b ↦ if s.isPlaced b then 0 else b.order).computeOrder_eq hstart'
  change s.unplaced.computeOrder =
    (s.unplaced.course start.uid).map fun r ↦ (r.1, s.unplaced.restamp r.2) at hcompute
  rw [hcompute, habreast.course_eq, h.computeOrder_eq hstart]
  cases hcourse : s.course start.uid with
  | error e => rfl
  | ok result =>
      obtain ⟨count, given⟩ := result
      have hrestamp : s.unplaced.restamp given = s.restamp given := by
        unfold unplaced restamp
        rw [reorder_reorder]
        refine reorder_congr fun b hb ↦ ?_
        by_cases hplaced : s.isPlaced b
        · exact h.orderAfter_of_isPlaced hstart hcourse hb hplaced _
        · rw [if_neg hplaced]
      exact congrArg (fun t ↦ Except.ok (count, t)) hrestamp

/-- Ordering changes nothing but what it sets. -/
theorem refreshes_of_computeOrder (h : s.WellFormed) (horder : s.computeOrder = .ok (count, t)) :
    s.Refreshes t := by
  obtain ⟨start, hstart, -⟩ := h.exists_start
  obtain ⟨given, hcourse, rfl⟩ := h.exists_course hstart horder
  refine ⟨Bubble.orderAfter given, rfl, fun b hb ↦ ?_⟩
  by_cases hplaced : s.isPlaced b
  · exact .inl hplaced
  · exact .inr (h.orderAfter_of_not_isPlaced hstart hcourse hb hplaced)

/-- Scenes that differ only in what ordering sets are ordered alike. -/
theorem computeOrder_eq_of_refreshes (h : s.WellFormed) (ht : s.Refreshes t) :
    t.computeOrder = s.computeOrder := by
  obtain ⟨f, rfl, -⟩ := id ht
  rw [← (wellFormed_reorder h f).computeOrder_unplaced, ht.unplaced_eq, h.computeOrder_unplaced]

/-- A scene that has been ordered is in order. -/
theorem computeOrder_of_computeOrder (h : s.WellFormed) (horder : s.computeOrder = .ok (count, t)) :
    t.computeOrder = .ok (count, t) := by
  rw [h.computeOrder_eq_of_refreshes (h.refreshes_of_computeOrder horder), horder]

end WellFormed

end StoryGraph.Scene
