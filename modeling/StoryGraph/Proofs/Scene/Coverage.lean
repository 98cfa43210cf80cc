import StoryGraph.Proofs.Scene.Course
import StoryGraph.Proofs.Scene.Reachable

/-!
# What an order walk covers

A walk that is not out of orders takes every connection that it comes to know of, and it comes to know of
those that leave the bubbles where it arrives. From the start of a well-formed scene it arrives at every
bubble that links lead to, and only there. So the bubbles that it gives orders to are the reachable ones
other than the start, as far as they are not locked.
-/

namespace StoryGraph.Scene

variable {s : Scene}

/-! ## Steps of a walk -/

/-- One step of a walk, with the connections that are pending before it and after it. -/
inductive WalkStep (s : Scene) :
    Walk → List (ConnectionId × Int64) → Walk → List (ConnectionId × Int64) → Prop where
  /-- A connection is done. -/
  | again {w id order pending} : id ∈ w.done → s.WalkStep w ((id, order) :: pending) w pending
  /-- A connection ends nowhere. -/
  | nowhere {w id order pending} : id ∉ w.done → s.end? id = none →
      s.WalkStep w ((id, order) :: pending) ⟨id :: w.done, w.given⟩ pending
  /-- A connection ends at a bubble, and the links of that bubble are next. -/
  | arrive {w id order pending} (b : Bubble) {onward} : id ∉ w.done → s.end? id = some b →
      s.onward? b (b.arrival order) = some onward →
      s.WalkStep w ((id, order) :: pending) (w.arrive id b (b.arrival order)) (onward ++ pending)

/-- What every step keeps true is true of a walk that is through. -/
theorem inv_of_walk {I : Walk → List (ConnectionId × Int64) → Prop}
    (hstep : ∀ {w pending w' pending'}, s.WalkStep w pending w' pending' → I w pending → I w' pending')
    {w v : Walk} {pending : List (ConnectionId × Int64)} (hinv : I w pending)
    (h : s.walk w pending = .ok v) : I v [] := by
  induction w, pending using walk_induction (s := s) with
  | nil w =>
      rw [walk_nil] at h
      obtain rfl := Except.ok.inj h
      exact hinv
  | again w id order pending hid ih =>
      rw [walk_of_mem hid] at h
      exact ih (hstep (.again hid) hinv) h
  | nowhere w id order pending hid hend ih =>
      rw [walk_of_end?_eq_none hid hend] at h
      exact ih (hstep (.nowhere hid hend) hinv) h
  | arrive w id order pending b hid hend ih =>
      rw [walk_of_arrive hid hend] at h
      cases honward : s.onward? b (b.arrival order) with
      | none => simp [honward] at h
      | some onward =>
          simp only [honward] at h
          exact ih onward honward (hstep (.arrive b hid hend honward) hinv) h

/-- A walk that fails has come, by steps that keep this true, to a bubble with no order left behind its
own. -/
theorem exists_of_walk_eq_error {I : Walk → List (ConnectionId × Int64) → Prop}
    (hstep : ∀ {w pending w' pending'}, s.WalkStep w pending w' pending' → I w pending → I w' pending')
    {w : Walk} {pending : List (ConnectionId × Int64)} (hinv : I w pending) {e : Error}
    (h : s.walk w pending = .error e) :
    ∃ v id order rest b, I v ((id, order) :: rest) ∧ id ∉ v.done ∧ s.end? id = some b ∧
      s.onward? b (b.arrival order) = none := by
  induction w, pending using walk_induction (s := s) with
  | nil w => simp [walk_nil] at h
  | again w id order pending hid ih =>
      rw [walk_of_mem hid] at h
      exact ih (hstep (.again hid) hinv) h
  | nowhere w id order pending hid hend ih =>
      rw [walk_of_end?_eq_none hid hend] at h
      exact ih (hstep (.nowhere hid hend) hinv) h
  | arrive w id order pending b hid hend ih =>
      rw [walk_of_arrive hid hend] at h
      cases honward : s.onward? b (b.arrival order) with
      | none => exact ⟨w, id, order, pending, b, hinv, hid, hend, honward⟩
      | some onward =>
          simp only [honward] at h
          exact ih onward honward (hstep (.arrive b hid hend honward) hinv) h

theorem ids_of_onward? {b : Bubble} {order : Int64} {onward : List (ConnectionId × Int64)}
    (h : s.onward? b order = some onward) : onward.map (·.1) = (s.links b.uid).map (·.id) := by
  unfold onward? at h
  split at h
  · rename_i hlinks
    obtain rfl := Option.some.inj h
    rw [hlinks]
    rfl
  · obtain ⟨next, -, rfl⟩ := Option.map_eq_some_iff.mp h
    rw [List.map_map]
    rfl

/-! ## Connections that a walk knows of -/

/-- `w.Knows pending id`: a walk has taken a connection or is going to. -/
def Walk.Knows (w : Walk) (pending : List (ConnectionId × Int64)) (id : ConnectionId) : Prop :=
  id ∈ w.done ∨ id ∈ pending.map (·.1)

variable {w w' : Walk} {pending pending' : List (ConnectionId × Int64)}

/-- What a walk knows of it does not forget. -/
theorem WalkStep.knows (h : s.WalkStep w pending w' pending') {id : ConnectionId}
    (hid : w.Knows pending id) : w'.Knows pending' id := by
  cases h with
  | again hdone =>
      rcases hid with hid | hid
      · exact .inl hid
      · rcases List.mem_cons.mp hid with rfl | hid
        · exact .inl hdone
        · exact .inr hid
  | nowhere =>
      rcases hid with hid | hid
      · exact .inl (List.mem_cons_of_mem _ hid)
      · rcases List.mem_cons.mp hid with rfl | hid
        · exact .inl List.mem_cons_self
        · exact .inr hid
  | arrive =>
      rcases hid with hid | hid
      · exact .inl (List.mem_cons_of_mem _ hid)
      · rcases List.mem_cons.mp hid with rfl | hid
        · exact .inl List.mem_cons_self
        · right
          rw [List.map_append]
          exact List.mem_append_right _ hid

/-- What a walk newly knows of leaves the bubble where it arrives. -/
theorem WalkStep.knows_or_exists (h : s.WalkStep w pending w' pending') {id : ConnectionId}
    (hid : w'.Knows pending' id) :
    w.Knows pending id ∨ ∃ i b, w.Knows pending i ∧ s.end? i = some b ∧
      id ∈ (s.links b.uid).map (·.id) := by
  cases h with
  | again => exact .inl (hid.imp_right (List.mem_cons_of_mem _))
  | nowhere =>
      rcases hid with hid | hid
      · rcases List.mem_cons.mp hid with rfl | hid
        · exact .inl (.inr List.mem_cons_self)
        · exact .inl (.inl hid)
      · exact .inl (.inr (List.mem_cons_of_mem _ hid))
  | arrive b _ hend honward =>
      rcases hid with hid | hid
      · rcases List.mem_cons.mp hid with rfl | hid
        · exact .inl (.inr List.mem_cons_self)
        · exact .inl (.inl hid)
      · rw [List.map_append, ids_of_onward? honward] at hid
        rcases List.mem_append.mp hid with hid | hid
        · exact .inr ⟨_, b, .inr List.mem_cons_self, hend, hid⟩
        · exact .inl (.inr (List.mem_cons_of_mem _ hid))

/-- `s.Covers w pending`: wherever a walk has arrived, it knows of the links, and has given an order to a
bubble that is not locked. -/
structure Covers (s : Scene) (w : Walk) (pending : List (ConnectionId × Int64)) : Prop where
  links : ∀ id ∈ w.done, ∀ b, s.end? id = some b → ∀ c ∈ s.links b.uid, w.Knows pending c.id
  given : ∀ id ∈ w.done, ∀ b, s.end? id = some b → b.locked = false → b.uid ∈ w.given.map (·.1)

theorem WalkStep.covers (h : s.WalkStep w pending w' pending') (hw : s.Covers w pending) :
    s.Covers w' pending' := by
  have hknows := @h.knows
  cases h with
  | again => exact ⟨fun id hid b hb c hc ↦ hknows (hw.links id hid b hb c hc), hw.given⟩
  | nowhere _ hend =>
      constructor
      · intro id hid b hb c hc
        rcases List.mem_cons.mp hid with rfl | hid
        · cases hend.symm.trans hb
        · exact hknows (hw.links id hid b hb c hc)
      · intro id hid b hb
        rcases List.mem_cons.mp hid with rfl | hid
        · cases hend.symm.trans hb
        · exact hw.given id hid b hb
  | arrive b _ hend honward =>
      constructor
      · intro id hid b' hb' c hc
        rcases List.mem_cons.mp hid with rfl | hid
        · obtain rfl := Option.some.inj (hend.symm.trans hb')
          right
          rw [List.map_append, ids_of_onward? honward]
          exact List.mem_append_left _ (List.mem_map_of_mem hc)
        · exact hknows (hw.links id hid b' hb' c hc)
      · intro id hid b' hb' hlocked
        unfold Walk.arrive
        rcases List.mem_cons.mp hid with rfl | hid
        · obtain rfl := Option.some.inj (hend.symm.trans hb')
          simp [hlocked]
        · have hmem := hw.given id hid b' hb' hlocked
          cases b.locked
          · exact List.mem_cons_of_mem _ hmem
          · exact hmem

/-- `s.Grounds P w pending`: wherever a walk arrives `P` holds, and what it has given orders to is not
locked. -/
structure Grounds (s : Scene) (P : Uid → Prop) (w : Walk) (pending : List (ConnectionId × Int64)) :
    Prop where
  ends : ∀ id, w.Knows pending id → ∀ b, s.end? id = some b → P b.uid
  given : ∀ u ∈ w.given.map (·.1), P u ∧ ∃ b, s.bubble? u = some b ∧ b.locked = false

theorem bubble?_of_end? {id : ConnectionId} {b : Bubble} (h : s.end? id = some b) :
    s.bubble? b.uid = some b := by
  obtain ⟨c, -, hc⟩ := Option.bind_eq_some_iff.mp h
  rwa [uid_of_bubble? hc]

theorem WalkStep.grounds {P : Uid → Prop}
    (hlinks : ∀ u, P u → ∀ c ∈ s.links u, ∀ b, s.end? c.id = some b → P b.uid)
    (h : s.WalkStep w pending w' pending') (hw : s.Grounds P w pending) : s.Grounds P w' pending' := by
  constructor
  · intro id hid b hb
    rcases h.knows_or_exists hid with hid | ⟨i, b', hi, hend, hid⟩
    · exact hw.ends id hid b hb
    · obtain ⟨c, hc, rfl⟩ := List.mem_map.mp hid
      exact hlinks b'.uid (hw.ends i hi b' hend) c hc b hb
  · cases h with
    | again => exact hw.given
    | nowhere => exact hw.given
    | arrive b _ hend =>
        intro u hu
        unfold Walk.arrive at hu
        cases hlocked : b.locked with
        | true => exact hw.given u (by simpa [hlocked] using hu)
        | false =>
            simp only [hlocked] at hu
            rcases List.mem_cons.mp hu with rfl | hu
            · exact ⟨hw.ends _ (.inr List.mem_cons_self) b hend, b, bubble?_of_end? hend, hlocked⟩
            · exact hw.given u hu

/-- A walk from a connection that is through has taken it, and covers what it has taken. -/
theorem of_walk {P : Uid → Prop}
    (hlinks : ∀ u, P u → ∀ c ∈ s.links u, ∀ b, s.end? c.id = some b → P b.uid) {id : ConnectionId}
    {order : Int64} (hid : ∀ b, s.end? id = some b → P b.uid)
    (h : s.walk ⟨[], []⟩ [(id, order)] = .ok w) : id ∈ w.done ∧ s.Covers w [] ∧ s.Grounds P w [] := by
  have hknows : Walk.Knows ⟨[], []⟩ [(id, order)] id := .inr List.mem_cons_self
  have hcovers : s.Covers ⟨[], []⟩ [(id, order)] := ⟨by simp, by simp⟩
  have hgrounds : s.Grounds P ⟨[], []⟩ [(id, order)] := by
    refine ⟨?_, by simp⟩
    rintro i (hi | hi)
    · cases hi
    · obtain rfl : i = id := by simpa using hi
      exact hid
  have hdone := inv_of_walk (I := fun w pending ↦ w.Knows pending id) (fun hstep ↦ hstep.knows) hknows h
  exact ⟨hdone.resolve_right List.not_mem_nil, inv_of_walk WalkStep.covers hcovers h,
    inv_of_walk (WalkStep.grounds hlinks) hgrounds h⟩

/-! ## The walk from the start -/

namespace WellFormed

theorem connection?_id (h : s.WellFormed) {c : Connection} (hc : c ∈ s.connections) :
    s.connection? c.id = some c := by
  refine find?_eq_some_of_unique hc (by simp) ?_
  intro c' hc' hid
  exact List.inj_on_of_nodup_map h.nodup_ids hc' hc (by simpa using hid)

theorem end?_id (h : s.WellFormed) {c : Connection} (hc : c ∈ s.connections) :
    s.end? c.id = s.bubble? c.target := by
  rw [end?, h.connection?_id hc]
  rfl

/-- A link to somewhere ends there. -/
theorem exists_end? (h : s.WellFormed) {u : Uid} {c : Connection} (hc : c ∈ s.links u) :
    ∃ b, s.end? c.id = some b ∧ b.uid = c.target := by
  have hmem := mem_connections_of_mem_links hc
  obtain ⟨b, hb, -⟩ := h.exists_target hmem
  exact ⟨b, (h.end?_id hmem).trans hb, uid_of_bubble? hb⟩

/-- A start has one link at most. -/
theorem links_start (h : s.WellFormed) {start : Bubble} (hstart : s.start? = some start) :
    s.links start.uid = (s.link? ⟨start.uid, .next⟩).toList := by
  obtain ⟨hmem, hisStart⟩ := h.start?_eq_some_iff.mp hstart
  rw [links, slots_of_bubble? (h.bubble?_uid hmem), Bubble.slots_of_isStart hisStart]
  cases hlink : s.link? ⟨start.uid, .next⟩ <;> simp [hlink]

/-- A link that is followed from the start on leads to another bubble. -/
theorem leads_of_link (h : s.WellFormed) {start : Bubble} (hstart : s.start? = some start) {u : Uid}
    (hu : s.LeadsTo start.uid u) {c : Connection} (hc : c ∈ s.links u) {b : Bubble}
    (hb : s.end? c.id = some b) : s.LeadsTo start.uid b.uid ∧ b.uid ≠ start.uid := by
  obtain ⟨hmem, hisStart⟩ := h.start?_eq_some_iff.mp hstart
  have hcmem := mem_connections_of_mem_links hc
  rw [h.end?_id hcmem] at hb
  rw [uid_of_bubble? hb]
  exact ⟨hu.tail ⟨c, hc, rfl⟩, h.target_ne_of_isStart hcmem hmem hisStart⟩

/-- A walk from the start that is through has taken the links of the start, and those of every bubble
where it arrived, which are bubbles that links lead to. -/
theorem of_walkFrom (h : s.WellFormed) {start : Bubble} (hstart : s.start? = some start)
    (hwalk : s.walkFrom start.uid = .ok w) :
    (∀ c ∈ s.links start.uid, c.id ∈ w.done) ∧ s.Covers w [] ∧
      s.Grounds (fun u ↦ s.LeadsTo start.uid u ∧ u ≠ start.uid) w [] := by
  unfold walkFrom at hwalk
  rw [h.links_start hstart] at hwalk ⊢
  cases hlink : s.link? ⟨start.uid, .next⟩ with
  | none =>
      rw [hlink] at hwalk
      obtain rfl := Except.ok.inj hwalk
      refine ⟨by simp, ⟨by simp, by simp⟩, ⟨?_, by simp⟩⟩
      rintro id (hid | hid) <;> cases hid
  | some first =>
      rw [hlink] at hwalk
      have hfirst : first ∈ s.links start.uid := by simp [h.links_start hstart, hlink]
      obtain ⟨hdone, hcovers, hgrounds⟩ := of_walk
        (P := fun u ↦ s.LeadsTo start.uid u ∧ u ≠ start.uid)
        (fun u hu c hc b ↦ h.leads_of_link hstart hu.1 hc)
        (fun b ↦ h.leads_of_link hstart .refl hfirst) hwalk
      exact ⟨by simpa using hdone, hcovers, hgrounds⟩

/-- Every bubble that links lead to from the start is the start, or one where the walk has arrived. -/
theorem exists_end?_of_leadsTo (h : s.WellFormed) {start : Bubble} (hstart : s.start? = some start)
    (hwalk : s.walkFrom start.uid = .ok w) {u : Uid} (hleads : s.LeadsTo start.uid u) :
    u = start.uid ∨ ∃ id ∈ w.done, ∃ b, s.end? id = some b ∧ b.uid = u := by
  obtain ⟨hseed, hcovers, -⟩ := h.of_walkFrom hstart hwalk
  induction hleads with
  | refl => exact .inl rfl
  | tail _ hlink ih =>
      obtain ⟨c, hc, rfl⟩ := hlink
      obtain ⟨b', hb', huid⟩ := h.exists_end? hc
      refine .inr ⟨c.id, ?_, b', hb', huid⟩
      rcases ih with rfl | ⟨id, hid, b₁, hb₁, rfl⟩
      · exact hseed c hc
      · exact (hcovers.links id hid b₁ hb₁ c hc).resolve_right List.not_mem_nil

/-- The walk from the start gives orders to the bubbles that can be reached, other than the start, as far
as they are not locked. -/
theorem mem_given_iff (h : s.WellFormed) {start : Bubble} (hstart : s.start? = some start) {count : Nat}
    {given : List (Uid × Int64)} (hcourse : s.course start.uid = .ok (count, given)) {u : Uid} :
    u ∈ given.map (·.1) ↔ u ∈ s.reachable ∧ u ≠ start.uid ∧
      ∃ b, s.bubble? u = some b ∧ b.locked = false := by
  obtain ⟨w, hwalk, rfl⟩ := exists_walkFrom_of_course hcourse
  obtain ⟨-, hcovers, hgrounds⟩ := h.of_walkFrom hstart hwalk
  rw [mem_reachable_iff hstart]
  constructor
  · intro hu
    obtain ⟨⟨hleads, hne⟩, hb⟩ := hgrounds.given u hu
    exact ⟨hleads, hne, hb⟩
  · rintro ⟨hleads, hne, b, hb, hlocked⟩
    obtain ⟨id, hid, b', hb', huid⟩ := (h.exists_end?_of_leadsTo hstart hwalk hleads).resolve_left hne
    obtain rfl : b = b' := Option.some.inj (hb.symm.trans (huid ▸ bubble?_of_end? hb'))
    exact huid ▸ hcovers.given id hid b hb' hlocked

/-- The bubbles other than the start that can be reached are those where a connection ends that the walk
from the start has taken. -/
theorem mem_reachable_iff_exists_done (h : s.WellFormed) {start : Bubble} (hstart : s.start? = some start)
    (hwalk : s.walkFrom start.uid = .ok w) {u : Uid} :
    u ∈ s.reachable ∧ u ≠ start.uid ↔ ∃ c ∈ s.connections, c.id ∈ w.done ∧ c.target = u := by
  rw [mem_reachable_iff hstart]
  constructor
  · rintro ⟨hleads, hne⟩
    obtain ⟨id, hid, b, hb, rfl⟩ := (h.exists_end?_of_leadsTo hstart hwalk hleads).resolve_left hne
    obtain ⟨c, hc, hbubble⟩ := Option.bind_eq_some_iff.mp hb
    have hcid : c.id = id := by simpa using List.find?_some hc
    exact ⟨c, List.mem_of_find?_eq_some hc, hcid ▸ hid, (uid_of_bubble? hbubble).symm⟩
  · rintro ⟨c, hc, hid, rfl⟩
    obtain ⟨-, -, hgrounds⟩ := h.of_walkFrom hstart hwalk
    obtain ⟨b, hb, -⟩ := h.exists_target hc
    have hends := hgrounds.ends c.id (.inl hid) b ((h.end?_id hc).trans hb)
    rwa [uid_of_bubble? hb] at hends

end WellFormed

end StoryGraph.Scene
