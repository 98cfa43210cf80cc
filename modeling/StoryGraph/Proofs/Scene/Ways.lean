import Mathlib.Data.List.Chain
import StoryGraph.Proofs.Scene.Joinless

/-!
# Orders along the ways from the start

Where no connections join, ordering leaves every link from a bubble that can be reached one step in order,
so that the orders rise along the ways from the start. Sorting by order keeps what comes along a way in the
order of the way, whatever it puts in between.
-/

namespace StoryGraph.Scene

variable {s : Scene}

/-! ## Orders by uid -/

/-- The order of the bubble of a uid. -/
def order? (s : Scene) (u : Uid) : Option Int64 := (s.bubble? u).map (·.order)

/-- Whether two uids are of bubbles of which the first has the lower order. -/
def IsLower (s : Scene) (u v : Uid) : Prop :=
  ∃ order order', s.order? u = some order ∧ s.order? v = some order' ∧ order < order'

theorem IsLower.trans {u v w : Uid} (huv : s.IsLower u v) (hvw : s.IsLower v w) : s.IsLower u w := by
  obtain ⟨order, middle, hu, hv, hlt⟩ := huv
  obtain ⟨middle', order', hv', hw, hlt'⟩ := hvw
  obtain rfl := Option.some.inj (hv.symm.trans hv')
  exact ⟨order, order', hu, hw, Int64.lt_trans hlt hlt'⟩

instance (s : Scene) : Trans s.IsLower s.IsLower s.IsLower := ⟨IsLower.trans⟩

theorem WellFormed.order?_restamp (hs : s.WellFormed) (given : List (Uid × Int64)) {b : Bubble}
    (hb : b ∈ s.bubbles) : (s.restamp given).order? b.uid = some (b.orderAfter given) := by
  rw [order?, restamp, bubble?_reorder, hs.bubble?_uid hb]
  rfl

/-- Ordering leaves a locked bubble where it is. -/
theorem WellFormed.orderAfter_of_locked (hs : s.WellFormed) {start : Bubble}
    (hstart : s.start? = some start) {count : Nat} {given : List (Uid × Int64)}
    (hcourse : s.course start.uid = .ok (count, given)) {b : Bubble} (hb : b ∈ s.bubbles)
    (hlocked : b.locked) : b.orderAfter given = b.order :=
  hs.orderAfter_of_not_isPlaced hstart hcourse hb (by simp [isPlaced, hlocked])

/-! ## Ways -/

/-- A way lies along a list if each of its steps comes there in turn, and the list gets to where it ends. -/
theorem sublist_of_isChain {α : Type} {way l : List α}
    (hway : way.IsChain fun u v ↦ ∀ before after, l = before ++ v :: after → u ∈ before)
    (hlast : ∀ v ∈ way.getLast?, v ∈ l) : way.Sublist l := by
  induction way using List.reverseRecOn generalizing l with
  | nil => exact List.nil_sublist l
  | append_singleton way v ih =>
      obtain ⟨before, after, rfl⟩ := List.append_of_mem (hlast v (by simp))
      obtain ⟨hway, -, hstep⟩ := List.isChain_append.mp hway
      have hbefore : way.Sublist before := by
        refine ih (hway.imp ?_) fun u hu ↦ hstep u hu v rfl before after rfl
        intro u w huw front back hsplit
        exact huw front (back ++ v :: after) (by simp [hsplit])
      exact hbefore.append (List.singleton_sublist.mpr List.mem_cons_self)

namespace WellFormed

variable (hs : s.WellFormed) {start : Bubble} (hstart : s.start? = some start)

include hs hstart

/-- A link leads on from what can be reached, and never back to the start. -/
theorem mem_reachable_of_linksTo {u v : Uid} (hu : u ∈ s.reachable) (h : s.LinksTo u v) :
    v ∈ s.reachable ∧ v ≠ start.uid := by
  obtain ⟨hmem, hisStart⟩ := hs.start?_eq_some_iff.mp hstart
  obtain ⟨c, hc, rfl⟩ := h
  exact ⟨hs.target_mem_reachable hu hc,
    hs.target_ne_of_isStart (mem_connections_of_mem_links hc) hmem hisStart⟩

theorem mem_reachable_of_mem_way {way : List Uid} (hway : (start.uid :: way).IsChain s.LinksTo) :
    ∀ u ∈ way, u ∈ s.reachable ∧ u ≠ start.uid := by
  have hfirst : start.uid ∈ s.reachable := (mem_reachable_iff hstart).mpr .refl
  cases way with
  | nil => simp
  | cons v way =>
      obtain ⟨hlink, hway⟩ := List.isChain_cons_cons.mp hway
      have hv := hs.mem_reachable_of_linksTo hstart hfirst hlink
      exact List.forall_mem_cons.mpr
        ⟨hv, hway.cons_induction _ way (fun u w huw hu ↦ hs.mem_reachable_of_linksTo hstart hu.1 huw) hv⟩

end WellFormed

namespace Joinless

variable (hjoin : s.Joinless) (hs : s.WellFormed) {start : Bubble} (hstart : s.start? = some start)
  (hlocked : ∀ b ∈ s.bubbles, b.uid ∈ s.reachable → b.locked = false)

include hjoin hs hstart hlocked

/-- Behind the start the orders rise along links. -/
theorem isLower_of_linksTo {count : Nat} {given : List (Uid × Int64)}
    (hcourse : s.course start.uid = .ok (count, given)) {u v : Uid} (hu : u ∈ s.reachable)
    (hne : u ≠ start.uid) (h : s.LinksTo u v) : (s.restamp given).IsLower u v := by
  obtain ⟨c, hc, rfl⟩ := h
  obtain ⟨b, hmem, rfl⟩ := hs.exists_bubble_of_mem_reachable hu
  obtain ⟨t, ht, htmem, -⟩ := hs.exists_target (mem_connections_of_mem_links hc)
  have htarget := uid_of_bubble? ht
  have hfree := hlocked t htmem (htarget ▸ hs.target_mem_reachable hu hc)
  have hno : b.isStart = false := Bool.eq_false_iff.mpr (mt (hs.isStart_iff_uid_eq hstart hmem).mp hne)
  have hnext := hjoin.toInt_orderAfter_of_link hs hstart hcourse hmem hu hc ht hfree
  rw [hno, if_neg Bool.false_ne_true] at hnext
  exact ⟨_, _, hs.order?_restamp given hmem, htarget ▸ hs.order?_restamp given htmem,
    Int64.lt_iff_toInt_lt.mpr (by omega)⟩

/-- The orders rise along every way behind the start. -/
theorem pairwise_isLower_of_way {count : Nat} {t : Scene} (horder : s.computeOrder = .ok (count, t))
    {way : List Uid} (hway : (start.uid :: way).IsChain s.LinksTo) : way.Pairwise t.IsLower := by
  obtain ⟨given, hcourse, rfl⟩ := hs.exists_course hstart horder
  rw [← List.isChain_iff_pairwise]
  refine (List.isChain_of_isChain_cons hway).imp_of_mem_imp ?_
  intro u v hu _ huv
  obtain ⟨hreach, hne⟩ := hs.mem_reachable_of_mem_way hstart hway u hu
  exact hjoin.isLower_of_linksTo hs hstart hlocked hcourse hreach hne huv

/-- The emission sequence goes along every way from the start. -/
theorem way_sublist_sequence {count : Nat} {t : Scene} (horder : s.computeOrder = .ok (count, t))
    {way : List Uid} (hway : (start.uid :: way).IsChain s.LinksTo) :
    (start.uid :: way).Sublist t.sequence := by
  have hreach : ∀ u ∈ start.uid :: way, u ∈ s.reachable :=
    List.forall_mem_cons.mpr ⟨(mem_reachable_iff hstart).mpr .refl,
      fun u hu ↦ (hs.mem_reachable_of_mem_way hstart hway u hu).1⟩
  refine sublist_of_isChain (hway.imp_of_mem_imp ?_) ?_
  · rintro u v hu - ⟨c, hc, rfl⟩ before after hsplit
    obtain ⟨b, hmem, rfl⟩ := hs.exists_bubble_of_mem_reachable (hreach u hu)
    exact hjoin.mem_before_of_link hs hlocked horder hmem (hreach b.uid hu) hc hsplit
  · intro v hv
    obtain ⟨b, hmem, rfl⟩ := hs.exists_bubble_of_mem_reachable (hreach v (List.mem_of_getLast? hv))
    obtain ⟨given, -, rfl⟩ := hs.exists_course hstart horder
    exact mem_sequence.mpr ⟨_, List.mem_map_of_mem hmem, rfl⟩

end Joinless

/-- Where no connections join, ordering puts the target of a link that leaves a bubble that can be reached
in the order behind it, the target of the start at 0, and what is locked nowhere else. So if nothing that
can be reached is locked, the orders rise along each way behind the start, and the emission sequence goes
along each way. Only an order that overflows keeps a scene from being ordered. -/
theorem Joinless.orders_along_ways (hjoin : s.Joinless) (hs : s.WellFormed)
    (hfits : s.computeOrder ≠ .error .overflow) :
    ∃ count t, s.computeOrder = .ok (count, t) ∧
      (∀ c ∈ s.connections, ∀ b ∈ s.bubbles, s.container? c.source = some b.uid →
        b.uid ∈ s.reachable → ∀ b' ∈ s.bubbles, b'.uid = c.target → b'.locked = false →
        ∃ order order', t.order? b.uid = some order ∧ t.order? b'.uid = some order' ∧
          order'.toInt = if b.isStart then 0 else order.toInt + 1) ∧
      (∀ b ∈ s.bubbles, b.locked → t.order? b.uid = some b.order) ∧
      ((∀ b ∈ s.bubbles, b.uid ∈ s.reachable → b.locked = false) →
        ∀ start, s.start? = some start → ∀ way : List Uid, (start.uid :: way).IsChain s.LinksTo →
          way.Pairwise t.IsLower ∧ (start.uid :: way).Sublist t.sequence) := by
  obtain ⟨start, hstart, -⟩ := hs.exists_start
  obtain ⟨count, t, horder⟩ := exists_of_computeOrder_ne hstart hfits
  refine ⟨count, t, horder, ?_, ?_, ?_⟩
  · intro c hc b hb hsource hreach b' hb' htarget hlocked
    obtain ⟨given, hcourse, rfl⟩ := hs.exists_course hstart horder
    obtain ⟨d, hd, hlink⟩ := hs.exists_mem_links hc
    rw [hs.container?_of_mem_links hd hlink] at hsource
    rw [Option.some.inj hsource] at hlink
    have ht : s.bubble? c.target = some b' := htarget ▸ hs.bubble?_uid hb'
    exact ⟨_, _, hs.order?_restamp given hb, hs.order?_restamp given hb',
      hjoin.toInt_orderAfter_of_link hs hstart hcourse hb hreach hlink ht hlocked⟩
  · intro b hb hlocked
    obtain ⟨given, hcourse, rfl⟩ := hs.exists_course hstart horder
    rw [hs.order?_restamp given hb, hs.orderAfter_of_locked hstart hcourse hb hlocked]
  · intro hlocked start' hstart' way hway
    exact ⟨hjoin.pairwise_isLower_of_way hs hstart' hlocked horder hway,
      hjoin.way_sublist_sequence hs hstart' hlocked horder hway⟩

/-- A condition behind the start that goes to a choice or to a story, where one option of the choice goes to
another story. A story that nothing leads to goes round by itself. -/
def burrow (locked : Bool) : Scene where
  name := "burrow"
  bubbles :=
    [⟨⟨1⟩, "", 3, false, .story "far"⟩, ⟨⟨2⟩, "", 9, false, .story "farther"⟩,
      ⟨⟨3⟩, "", 40, locked, .choice [⟨⟨10⟩, "stay"⟩, ⟨⟨11⟩, "go"⟩]⟩,
      ⟨⟨4⟩, "", 7, false, .condition "dark"⟩, ⟨⟨5⟩, "", 2, false, .start⟩,
      ⟨⟨6⟩, "", 1, false, .story "round"⟩]
  connections :=
    [⟨⟨0⟩, ⟨⟨5⟩, .next⟩, ⟨4⟩, .south, .north⟩, ⟨⟨1⟩, ⟨⟨4⟩, .whenTrue⟩, ⟨3⟩, .south, .north⟩,
      ⟨⟨2⟩, ⟨⟨11⟩, .next⟩, ⟨2⟩, .south, .north⟩, ⟨⟨3⟩, ⟨⟨4⟩, .whenFalse⟩, ⟨1⟩, .south, .north⟩,
      ⟨⟨4⟩, ⟨⟨6⟩, .next⟩, ⟨6⟩, .south, .north⟩]

/-- With the choice locked, the story behind it comes after it. Without the lock, the way to that story goes
up, and the emission sequence goes along it. -/
theorem orders_burrow :
    (∃ count t, (burrow true).computeOrder = .ok (count, t) ∧ t.order? ⟨3⟩ = some 40 ∧
      ∃ order order', t.order? ⟨3⟩ = some order ∧ t.order? ⟨2⟩ = some order' ∧
        order'.toInt = order.toInt + 1) ∧
    ∃ count t, (burrow false).computeOrder = .ok (count, t) ∧
      [⟨4⟩, ⟨3⟩, ⟨2⟩].Pairwise t.IsLower ∧ [⟨5⟩, ⟨4⟩, ⟨3⟩, ⟨2⟩].Sublist t.sequence := by
  have hfits (locked : Bool) : (burrow locked).computeOrder ≠ .error .overflow := by
    have hcount : (burrow locked).computeOrder.map (·.1) = .ok 4 := by cases locked <;> cbv
    intro h
    rw [h] at hcount
    cases hcount
  constructor
  · have hreach : (⟨3⟩ : Uid) ∈ (burrow true).reachable := by
      have hall : (burrow true).reachable = [⟨5⟩, ⟨4⟩, ⟨3⟩, ⟨1⟩, ⟨2⟩] := by cbv
      rw [hall]
      decide
    obtain ⟨count, t, horder, hlinks, hlocked, -⟩ :=
      Joinless.orders_along_ways (s := burrow true) (by decide) (by decide) (hfits true)
    obtain ⟨order, order', ho, ho', hnext⟩ := hlinks ⟨⟨2⟩, ⟨⟨11⟩, .next⟩, ⟨2⟩, .south, .north⟩ (by decide)
      ⟨⟨3⟩, "", 40, true, .choice [⟨⟨10⟩, "stay"⟩, ⟨⟨11⟩, "go"⟩]⟩ (by decide) (by decide) hreach
      ⟨⟨2⟩, "", 9, false, .story "farther"⟩ (by decide) rfl rfl
    have hchoice := hlocked ⟨⟨3⟩, "", 40, true, .choice [⟨⟨10⟩, "stay"⟩, ⟨⟨11⟩, "go"⟩]⟩ (by decide) rfl
    exact ⟨count, t, horder, hchoice, order, order', ho, ho', hnext⟩
  · obtain ⟨count, t, horder, -, -, hways⟩ :=
      Joinless.orders_along_ways (s := burrow false) (by decide) (by decide) (hfits false)
    have hway : [⟨5⟩, ⟨4⟩, ⟨3⟩, ⟨2⟩].IsChain (burrow false).LinksTo := by
      refine .cons_cons ⟨⟨⟨0⟩, ⟨⟨5⟩, .next⟩, ⟨4⟩, .south, .north⟩, by decide, rfl⟩ ?_
      refine .cons_cons ⟨⟨⟨1⟩, ⟨⟨4⟩, .whenTrue⟩, ⟨3⟩, .south, .north⟩, by decide, rfl⟩ ?_
      exact .cons_cons ⟨⟨⟨2⟩, ⟨⟨11⟩, .next⟩, ⟨2⟩, .south, .north⟩, by decide, rfl⟩ (.singleton _)
    have hopen : ∀ b ∈ (burrow false).bubbles, b.locked = false := by decide
    exact ⟨count, t, horder, hways (fun b hb _ ↦ hopen b hb) ⟨⟨5⟩, "", 2, false, .start⟩ (by decide) _ hway⟩

end StoryGraph.Scene
