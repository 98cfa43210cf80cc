import StoryGraph.Proofs.Scene.Sequence
import StoryGraph.Proofs.Scene.Traversal

/-!
# Scenes in which no connections join

Where one connection at most ends at a bubble, only one way leads to it from the start. A walk arrives
there once, so that the order that it gives is the one that stays, and no order changes after the links of
its bubble have taken it on. So every link from a bubble that can be reached leads to the order after that
of the bubble, and in the emission sequence the bubble comes first.
-/

namespace StoryGraph.Scene

/-- Whether one connection at most ends at each bubble. -/
def Joinless (s : Scene) : Prop := ∀ b ∈ s.bubbles, (s.incoming b.uid).length ≤ 1

instance (s : Scene) : Decidable s.Joinless :=
  inferInstanceAs (Decidable (∀ b ∈ s.bubbles, (s.incoming b.uid).length ≤ 1))

variable {s : Scene}

/-! ## Where one connection ends -/

namespace Joinless

variable (hjoin : s.Joinless) (hs : s.WellFormed)

include hjoin hs

/-- No two connections end at one bubble. -/
theorem eq_of_target_eq {c c' : Connection} (hc : c ∈ s.connections) (hc' : c' ∈ s.connections)
    (htarget : c.target = c'.target) : c = c' := by
  obtain ⟨b, hb, hmem, -⟩ := hs.exists_target hc
  have huid := uid_of_bubble? hb
  have hin : c ∈ s.incoming b.uid := mem_incoming.mpr ⟨hc, huid.symm⟩
  have hin' : c' ∈ s.incoming b.uid := mem_incoming.mpr ⟨hc', htarget.symm.trans huid.symm⟩
  exact eq_of_mem_of_length_le_one (hjoin b hmem) hin hin'

/-- The link that leads to a bubble that can be reached comes from one that can be reached. -/
theorem mem_reachable_of_target {b : Bubble} (hb : b ∈ s.bubbles) {c : Connection}
    (hc : c ∈ s.links b.uid) (htarget : c.target ∈ s.reachable) : b.uid ∈ s.reachable := by
  obtain ⟨start, hstart, hmem, hisStart⟩ := hs.exists_start
  have hcmem := mem_connections_of_mem_links hc
  rw [mem_reachable_iff hstart] at htarget
  rcases htarget.cases_tail with heq | ⟨u, hu, c', hc', htarget'⟩
  · exact absurd heq (hs.target_ne_of_isStart hcmem hmem hisStart)
  · have hu : u ∈ s.reachable := (mem_reachable_iff hstart).mpr hu
    obtain ⟨b', hmem', rfl⟩ := hs.exists_bubble_of_mem_reachable hu
    obtain rfl := hjoin.eq_of_target_eq hs (mem_connections_of_mem_links hc') hcmem htarget'
    rwa [hs.eq_of_mem_links hb hmem' hc hc']

end Joinless

/-! ## Orders that stay -/

/-- `s.Carries given c order`: once orders have been given, a connection carries the order that follows
that of the bubble that it leaves, or 0 if that is a start. -/
def Carries (s : Scene) (given : List (Uid × Int64)) (c : Connection) (order : Int64) : Prop :=
  ∀ b ∈ s.bubbles, c ∈ s.links b.uid →
    if b.isStart then order = 0 else nextOrder? (b.orderAfter given) = some order

/-- `s.Settles w pending`: the orders that a walk has given are those that it goes on with. -/
structure Settles (s : Scene) (w : Walk) (pending : List (ConnectionId × Int64)) : Prop where
  /-- A walk knows of connections that leave a start or a bubble where it has arrived. -/
  sources : ∀ c ∈ s.connections, w.Knows pending c.id → ∀ b ∈ s.bubbles, c ∈ s.links b.uid →
    b.isStart ∨ ∃ c' ∈ s.connections, c'.id ∈ w.done ∧ c'.target = b.uid
  pending : ∀ c ∈ s.connections, ∀ order, (c.id, order) ∈ pending → s.Carries w.given c order
  given : ∀ c ∈ s.connections, c.id ∈ w.done → ∀ b, s.bubble? c.target = some b → b.locked = false →
    ∃ order, w.given.lookup b.uid = some order ∧ s.Carries w.given c order

section

variable {w w' : Walk} {pending pending' : List (ConnectionId × Int64)} {b : Bubble} {order : Int64}
  {id : ConnectionId}

theorem lookup_arrive_of_ne {u : Uid} (hne : u ≠ b.uid) :
    (w.arrive id b order).given.lookup u = w.given.lookup u := by
  unfold Walk.arrive
  cases b.locked with
  | true => rfl
  | false => simp [List.lookup_cons, beq_eq_false_iff_ne.mpr hne]

theorem lookup_arrive (hlocked : b.locked = false) :
    (w.arrive id b order).given.lookup b.uid = some order := by
  simp [Walk.arrive, hlocked]

theorem orderAfter_arrive_of_ne {b' : Bubble} (hne : b'.uid ≠ b.uid) :
    b'.orderAfter (w.arrive id b order).given = b'.orderAfter w.given := by
  rw [Bubble.orderAfter, lookup_arrive_of_ne hne, Bubble.orderAfter]

/-- The order of a bubble at which a walk arrives is the one that it goes on with. -/
theorem orderAfter_arrive
    (hgiven : ∀ u ∈ w.given.map (·.1), ∃ b, s.bubble? u = some b ∧ b.locked = false)
    (hb : s.bubble? b.uid = some b) :
    b.orderAfter (w.arrive id b (b.arrival order)).given = b.arrival order := by
  unfold Walk.arrive Bubble.orderAfter Bubble.arrival
  cases hlocked : b.locked with
  | false => simp
  | true =>
      have hnone : w.given.lookup b.uid = none := by
        rw [← Option.not_isSome_iff_eq_none, lookup_isSome_iff]
        intro hmem
        obtain ⟨b', hb', hunlocked⟩ := hgiven _ hmem
        obtain rfl := Option.some.inj (hb.symm.trans hb')
        simp [hlocked] at hunlocked
      simp [hnone]

/-- An order that is carried stays so, unless the walk arrives at the bubble that it comes from. -/
theorem Carries.arrive {c : Connection} {order' : Int64} (hc : c ∉ s.links b.uid)
    (h : s.Carries w.given c order') : s.Carries (w.arrive id b order).given c order' := by
  intro b' hb' hc'
  have hne : b'.uid ≠ b.uid := by
    intro huid
    rw [huid] at hc'
    exact hc hc'
  rw [orderAfter_arrive_of_ne hne]
  exact h b' hb' hc'

/-- The links of a bubble carry the order after its own. -/
theorem of_mem_onward? {onward : List (ConnectionId × Int64)} (h : s.onward? b order = some onward)
    {next : Int64} (hmem : (id, next) ∈ onward) :
    nextOrder? order = some next ∧ ∃ c ∈ s.links b.uid, c.id = id := by
  unfold onward? at h
  split at h
  · obtain rfl := Option.some.inj h
    simp at hmem
  · obtain ⟨next', hnext, rfl⟩ := Option.map_eq_some_iff.mp h
    obtain ⟨c, hc, heq⟩ := List.mem_map.mp hmem
    obtain ⟨rfl, rfl⟩ := Prod.mk.inj heq
    exact ⟨hnext, c, hc, rfl⟩

end

/-! ### Where a walk arrives -/

section

variable {w : Walk} {pending onward : List (ConnectionId × Int64)} {b : Bubble} {order : Int64}
  {c c' : Connection} (hw : s.Settles w ((c.id, order) :: pending)) (hs : s.WellFormed)
  (hc : c ∈ s.connections) (hb : s.bubble? c.target = some b)

include hw hs hc hb

theorem Settles.sources_arrive (honward : s.onward? b (b.arrival order) = some onward)
    (hc' : c' ∈ s.connections)
    (hknows : (w.arrive c.id b (b.arrival order)).Knows (onward ++ pending) c'.id) {b' : Bubble}
    (hb' : b' ∈ s.bubbles) (hlink : c' ∈ s.links b'.uid) :
    b'.isStart ∨ ∃ d ∈ s.connections, d.id ∈ c.id :: w.done ∧ d.target = b'.uid := by
  by_cases hold : w.Knows ((c.id, order) :: pending) c'.id
  · refine (hw.sources c' hc' hold b' hb' hlink).imp_right ?_
    rintro ⟨d, hd, hdone, htarget⟩
    exact ⟨d, hd, List.mem_cons_of_mem _ hdone, htarget⟩
  · rcases hknows with hdone | hid
    · rcases List.mem_cons.mp hdone with heq | hdone
      · exact absurd (.inr (by simp [heq])) hold
      · exact absurd (.inl hdone) hold
    · rw [List.map_append, ids_of_onward? honward] at hid
      rcases List.mem_append.mp hid with hid | hid
      · have hown := hs.mem_links_of_id hc' hid
        obtain rfl := hs.eq_of_mem_links hb' (mem_of_bubble? hb) hlink hown
        exact .inr ⟨c, hc, List.mem_cons_self, (uid_of_bubble? hb).symm⟩
      · exact absurd (.inr (List.mem_cons_of_mem _ hid)) hold

variable (hjoin : s.Joinless) (hnew : c.id ∉ w.done)

include hjoin hnew

/-- The walk does not know of the links of the bubble. -/
theorem Settles.not_knows (hc' : c' ∈ s.links b.uid) : ¬ w.Knows ((c.id, order) :: pending) c'.id := by
  intro hknows
  rcases hw.sources c' (mem_connections_of_mem_links hc') hknows b (mem_of_bubble? hb) hc' with
    hstart | ⟨d, hd, hdone, htarget⟩
  · exact hs.target_ne_of_isStart hc (mem_of_bubble? hb) hstart (uid_of_bubble? hb).symm
  · obtain rfl := hjoin.eq_of_target_eq hs hd hc (htarget.trans (uid_of_bubble? hb))
    exact hnew hdone

/-- What the connections carry that the walk knows of does not change. -/
theorem Settles.carries_arrive (hknows : w.Knows ((c.id, order) :: pending) c'.id) {order' : Int64}
    (h : s.Carries w.given c' order') :
    s.Carries (w.arrive c.id b (b.arrival order)).given c' order' :=
  h.arrive fun hlink ↦ hw.not_knows hs hc hb hjoin hnew hlink hknows

/-- The links of the bubble carry the order after its own. -/
theorem Settles.pending_arrive (hground : s.Grounds (fun _ ↦ True) w ((c.id, order) :: pending))
    (honward : s.onward? b (b.arrival order) = some onward) (hc' : c' ∈ s.connections) {order' : Int64}
    (hmem : (c'.id, order') ∈ onward ++ pending) :
    s.Carries (w.arrive c.id b (b.arrival order)).given c' order' := by
  rcases List.mem_append.mp hmem with hmem | hmem
  · obtain ⟨hnext, d, hd, hid⟩ := of_mem_onward? honward hmem
    have hown := hs.mem_links_of_id hc' (List.mem_map.mpr ⟨d, hd, hid⟩)
    intro b' hb' hlink
    obtain rfl := hs.eq_of_mem_links hb' (mem_of_bubble? hb) hlink hown
    obtain ⟨_, hb'', -, hstart⟩ := hs.exists_target hc
    obtain rfl := Option.some.inj (hb.symm.trans hb'')
    rw [orderAfter_arrive (fun u hu ↦ (hground.given u hu).2) (hs.bubble?_uid hb'), hstart]
    exact hnext
  · have hcarries := hw.pending c' hc' order' (List.mem_cons_of_mem _ hmem)
    have hknows := List.mem_cons_of_mem c.id (List.mem_map_of_mem (f := (·.1)) hmem)
    exact hw.carries_arrive hs hc hb hjoin hnew (.inr hknows) hcarries

theorem Settles.given_arrive (hc' : c' ∈ s.connections) (hmem : c'.id ∈ c.id :: w.done) {b' : Bubble}
    (hb' : s.bubble? c'.target = some b') (hlocked : b'.locked = false) :
    ∃ order', (w.arrive c.id b (b.arrival order)).given.lookup b'.uid = some order' ∧
      s.Carries (w.arrive c.id b (b.arrival order)).given c' order' := by
  rcases List.mem_cons.mp hmem with hid | hdone
  · obtain rfl := List.inj_on_of_nodup_map hs.nodup_ids hc' hc hid
    obtain rfl := Option.some.inj (hb.symm.trans hb')
    have harrival : b.arrival order = order := by simp [Bubble.arrival, hlocked]
    refine ⟨order, (lookup_arrive hlocked).trans (congrArg some harrival), ?_⟩
    exact hw.carries_arrive hs hc hb hjoin hnew (.inr List.mem_cons_self)
      (hw.pending c' hc order List.mem_cons_self)
  · obtain ⟨order', hlookup, hcarries⟩ := hw.given c' hc' hdone b' hb' hlocked
    refine ⟨order', ?_, hw.carries_arrive hs hc hb hjoin hnew (.inl hdone) hcarries⟩
    rwa [lookup_arrive_of_ne]
    intro huid
    rw [uid_of_bubble? hb', uid_of_bubble? hb] at huid
    obtain rfl := hjoin.eq_of_target_eq hs hc' hc huid
    exact hnew hdone

end

/-! ### A whole walk -/

theorem WalkStep.settles {w w' : Walk} {pending pending' : List (ConnectionId × Int64)}
    (hs : s.WellFormed) (hjoin : s.Joinless) (h : s.WalkStep w pending w' pending')
    (hground : s.Grounds (fun _ ↦ True) w pending) (hw : s.Settles w pending) :
    s.Settles w' pending' := by
  cases h with
  | again hdone =>
      exact ⟨fun c hc hknows ↦ hw.sources c hc (hknows.imp_right (List.mem_cons_of_mem _)),
        fun c hc order hmem ↦ hw.pending c hc order (List.mem_cons_of_mem _ hmem), hw.given⟩
  | @nowhere id order _ _ hend =>
      have hne : ∀ c ∈ s.connections, c.id ≠ id := by
        rintro c hc rfl
        obtain ⟨b, hb, -⟩ := hs.exists_target hc
        rw [hs.end?_id hc, hb] at hend
        cases hend
      constructor
      · intro c hc hknows b hb hlink
        have hold : w.Knows ((id, order) :: pending') c.id :=
          hknows.imp (fun hmem ↦ (List.mem_cons.mp hmem).resolve_left (hne c hc)) (List.mem_cons_of_mem _)
        refine (hw.sources c hc hold b hb hlink).imp_right ?_
        rintro ⟨c', hc', hdone, htarget⟩
        exact ⟨c', hc', List.mem_cons_of_mem _ hdone, htarget⟩
      · exact fun c hc order hmem ↦ hw.pending c hc order (List.mem_cons_of_mem _ hmem)
      · exact fun c hc hmem ↦ hw.given c hc ((List.mem_cons.mp hmem).resolve_left (hne c hc))
  | @arrive id order pending b onward hnew hend honward =>
      obtain ⟨c, hc, hb⟩ := Option.bind_eq_some_iff.mp hend
      obtain rfl : c.id = id := by simpa using List.find?_some hc
      replace hc : c ∈ s.connections := List.mem_of_find?_eq_some hc
      exact ⟨fun c' hc' hknows b' ↦ hw.sources_arrive hs hc hb honward hc' hknows,
        fun c' hc' order' ↦ hw.pending_arrive hs hc hb hjoin hnew hground honward hc',
        fun c' hc' hmem b' ↦ hw.given_arrive hs hc hb hjoin hnew hc' hmem⟩

namespace Joinless

variable (hjoin : s.Joinless) (hs : s.WellFormed) {start : Bubble} (hstart : s.start? = some start)

include hjoin hs hstart

theorem settles_of_walkFrom {w : Walk} (hwalk : s.walkFrom start.uid = .ok w) : s.Settles w [] := by
  obtain ⟨hmem, hisStart⟩ := hs.start?_eq_some_iff.mp hstart
  unfold walkFrom at hwalk
  split at hwalk
  · obtain rfl := Except.ok.inj hwalk
    refine ⟨fun c _ hknows ↦ ?_, by simp, by simp⟩
    rcases hknows with hknows | hknows <;> cases hknows
  · rename_i first hfirst
    have hlink : first ∈ s.links start.uid := List.mem_of_mem_head? hfirst
    have hfirst : ∀ c ∈ s.connections, c.id = first.id → ∀ b ∈ s.bubbles, c ∈ s.links b.uid →
        b.isStart := by
      intro c hc hid b hb hc'
      obtain rfl := List.inj_on_of_nodup_map hs.nodup_ids hc (mem_connections_of_mem_links hlink) hid
      rwa [hs.eq_of_mem_links hb hmem hc' hlink]
    have hground : s.Grounds (fun _ ↦ True) ⟨[], []⟩ [(first.id, 0)] := ⟨fun _ _ _ _ ↦ trivial, by simp⟩
    have hsettles : s.Settles ⟨[], []⟩ [(first.id, 0)] := by
      refine ⟨fun c hc hknows b hb hlink ↦ .inl ?_, fun c hc order hpending b hb hlink ↦ ?_, by simp⟩
      · exact hfirst c hc (by simpa [Walk.Knows] using hknows) b hb hlink
      · obtain ⟨hid, rfl⟩ : c.id = first.id ∧ order = 0 := by simpa using hpending
        rw [if_pos (hfirst c hc hid b hb hlink)]
    exact (inv_of_walk
      (I := fun w pending ↦ s.Grounds (fun _ ↦ True) w pending ∧ s.Settles w pending)
      (fun hstep hinv ↦ ⟨hstep.grounds (fun _ _ _ _ _ _ ↦ trivial) hinv.1,
        hstep.settles hs hjoin hinv.1 hinv.2⟩) ⟨hground, hsettles⟩ hwalk).2

/-- A link from a bubble that can be reached leads to the order that it carries, unless its target is
locked. -/
theorem carries_of_course {count : Nat} {given : List (Uid × Int64)}
    (hcourse : s.course start.uid = .ok (count, given)) {u : Uid} (hu : u ∈ s.reachable)
    {c : Connection} (hc : c ∈ s.links u) {b : Bubble} (hb : s.bubble? c.target = some b)
    (hlocked : b.locked = false) : s.Carries given c (b.orderAfter given) := by
  obtain ⟨w, hwalk, rfl⟩ := exists_walkFrom_of_course hcourse
  have hdone : c.id ∈ w.done :=
    (hs.mem_done_iff hstart hwalk).mpr ⟨u, (mem_reachable_iff hstart).mp hu, List.mem_map_of_mem hc⟩
  obtain ⟨order, hlookup, hcarries⟩ := (hjoin.settles_of_walkFrom hs hstart hwalk).given c
    (mem_connections_of_mem_links hc) hdone b hb hlocked
  have horder : b.orderAfter w.given = order := by
    rw [Bubble.orderAfter, hlookup]
    rfl
  rwa [horder]

end Joinless

/-! ## The way from the start along the sequence -/

theorem toInt_of_nextOrder? {order next : Int64} (h : nextOrder? order = some next) :
    next.toInt = order.toInt + 1 := by
  unfold nextOrder? at h
  split at h
  · cases h
  · rename_i hne
    obtain rfl := Option.some.inj h
    have hmax : Int64.maxValue.toInt = 2 ^ 63 - 1 := by decide
    have hlt : order.toInt ≠ Int64.maxValue.toInt := fun heq ↦ hne (Int64.toInt_inj.mp heq)
    have hge := order.le_toInt
    have hle := order.toInt_le
    rw [Int64.toInt_add, Int64.toInt_one]
    exact Int.bmod_eq_of_le (by omega) (by omega)

/-- Ordering puts a start in front that is not locked. -/
theorem WellFormed.orderAfter_start (hs : s.WellFormed) {start : Bubble} (hstart : s.start? = some start)
    {count : Nat} {given : List (Uid × Int64)} (hcourse : s.course start.uid = .ok (count, given))
    {b : Bubble} (hb : b ∈ s.bubbles) (hisStart : b.isStart) (hlocked : b.locked = false) :
    b.orderAfter given = 0 := by
  obtain ⟨hmem, hisStart'⟩ := hs.start?_eq_some_iff.mp hstart
  obtain rfl := hs.eq_of_isStart hb hmem hisStart hisStart'
  have hnone : given.lookup b.uid = none := by
    rw [← Option.not_isSome_iff_eq_none, lookup_isSome_iff, hs.mem_given_iff hstart hcourse]
    exact fun hgiven ↦ hgiven.2.1 rfl
  simp [Bubble.orderAfter, hnone, hisStart, hlocked]

namespace Joinless

variable (hjoin : s.Joinless) (hs : s.WellFormed)

include hjoin hs

/-- A link from a bubble that can be reached leads to the order after that of the bubble, or to 0 from the
start, unless its target is locked. -/
theorem toInt_orderAfter_of_link {start : Bubble} (hstart : s.start? = some start) {count : Nat}
    {given : List (Uid × Int64)} (hcourse : s.course start.uid = .ok (count, given)) {b t : Bubble}
    (hb : b ∈ s.bubbles) (hreach : b.uid ∈ s.reachable) {c : Connection} (hc : c ∈ s.links b.uid)
    (ht : s.bubble? c.target = some t) (hlocked : t.locked = false) :
    (t.orderAfter given).toInt = if b.isStart then 0 else (b.orderAfter given).toInt + 1 := by
  have hcarries := hjoin.carries_of_course hs hstart hcourse hreach hc ht hlocked b hb hc
  cases hstart' : b.isStart with
  | true =>
      rw [hstart', if_pos rfl] at hcarries
      simp [hcarries]
  | false =>
      rw [hstart', if_neg Bool.false_ne_true] at hcarries
      simpa using toInt_of_nextOrder? hcarries

variable (hlocked : ∀ b ∈ s.bubbles, b.uid ∈ s.reachable → b.locked = false)

include hlocked

/-- Once a scene is ordered, its bubbles come along the sequence on every way from the start. -/
theorem mem_before_of_link {s' : Scene} {count : Nat} (horder : s.computeOrder = .ok (count, s'))
    {b : Bubble} (hb : b ∈ s.bubbles) (hreach : b.uid ∈ s.reachable) {c : Connection}
    (hc : c ∈ s.links b.uid) {before after : List Uid}
    (hsplit : s'.sequence = before ++ c.target :: after) : b.uid ∈ before := by
  obtain ⟨start, hstart, -⟩ := hs.exists_start
  obtain ⟨given, hcourse, rfl⟩ := hs.exists_course hstart horder
  obtain ⟨t, ht, hmem, hno⟩ := hs.exists_target (mem_connections_of_mem_links hc)
  have htarget := uid_of_bubble? ht
  have hfree := hlocked t hmem (htarget ▸ hs.target_mem_reachable hreach hc)
  have hnext := hjoin.toInt_orderAfter_of_link hs hstart hcourse hb hreach hc ht hfree
  have hstays : ∀ b ∈ s.bubbles, { b with order := b.orderAfter given } ∈ (s.restamp given).bubbles :=
    fun b hb ↦ List.mem_map_of_mem hb
  refine (wellFormed_reorder hs _).mem_before_of_precedes (hstays b hb) (hstays t hmem) ?_
    (htarget ▸ hsplit)
  rw [precedes_iff]
  show ¬ ((t.orderAfter given).toInt < (b.orderAfter given).toInt ∨
    (t.orderAfter given).toInt = (b.orderAfter given).toInt ∧ (t.isStart = true ∧ b.isStart = false ∨
      t.isStart = b.isStart ∧ t.uid.toNat ≤ b.uid.toNat))
  cases hstart' : b.isStart with
  | true =>
      have hzero := hs.orderAfter_start hstart hcourse hb hstart' (hlocked b hb hreach)
      simp [hnext, hzero, hstart', hno]
  | false =>
      rw [hstart', if_neg Bool.false_ne_true] at hnext
      omega

end Joinless

/-- `s.Straight`: no connections join, nothing that can be reached is locked, and on every way from the
start the bubbles come along the sequence. -/
structure Straight (s : Scene) : Prop where
  wellFormed : s.WellFormed
  joinless : s.Joinless
  unlocked : ∀ b ∈ s.bubbles, b.uid ∈ s.reachable → b.locked = false
  mem_before : ∀ b ∈ s.bubbles, b.uid ∈ s.reachable → ∀ c ∈ s.links b.uid,
    ∀ before after, s.sequence = before ++ c.target :: after → b.uid ∈ before

theorem Straight.target_ne (h : s.Straight) {b : Bubble} (hb : b ∈ s.bubbles)
    (hreach : b.uid ∈ s.reachable) {c : Connection} (hc : c ∈ s.links b.uid) : c.target ≠ b.uid := by
  intro heq
  obtain ⟨before, after, hsplit⟩ := List.append_of_mem (mem_sequence.mpr ⟨b, hb, heq.symm⟩)
  have hmem := h.mem_before b hb hreach c hc before after hsplit
  have hnodup := h.wellFormed.nodup_sequence
  rw [hsplit] at hnodup
  exact List.disjoint_of_nodup_append hnodup hmem (heq ▸ List.mem_cons_self)

/-- Ordering makes ways straight where no connections join. -/
theorem Joinless.straight_of_computeOrder (hjoin : s.Joinless) (hs : s.WellFormed)
    (hlocked : ∀ b ∈ s.bubbles, b.uid ∈ s.reachable → b.locked = false) {s' : Scene} {count : Nat}
    (horder : s.computeOrder = .ok (count, s')) : s'.Straight ∧ s'.reachable = s.reachable := by
  have hbefore : ∀ b ∈ s.bubbles, b.uid ∈ s.reachable → ∀ c ∈ s.links b.uid, ∀ before after,
      s'.sequence = before ++ c.target :: after → b.uid ∈ before :=
    fun b hb hreach c hc before after ↦ hjoin.mem_before_of_link hs hlocked horder hb hreach hc
  obtain ⟨f, rfl, -⟩ := hs.refreshes_of_computeOrder horder
  have hreachable := s.reachable_reorder f
  have hmem : ∀ b' ∈ (s.reorder f).bubbles, ∃ b ∈ s.bubbles, b.uid = b'.uid ∧ b.locked = b'.locked := by
    intro b' hb'
    obtain ⟨b, hb, rfl⟩ := List.mem_map.mp hb'
    exact ⟨b, hb, rfl, rfl⟩
  refine ⟨⟨wellFormed_reorder hs f, ?_, ?_, ?_⟩, hreachable⟩
  · intro b' hb'
    obtain ⟨b, hb, huid, -⟩ := hmem b' hb'
    exact huid ▸ hjoin b hb
  · intro b' hb' hreach
    obtain ⟨b, hb, huid, heq⟩ := hmem b' hb'
    exact heq ▸ hlocked b hb (huid ▸ hreachable ▸ hreach)
  · intro b' hb' hreach c hc before after hsplit
    obtain ⟨b, hb, huid, -⟩ := hmem b' hb'
    rw [links_reorder, ← huid] at hc
    rw [hreachable, ← huid] at hreach
    rw [← huid]
    exact hbefore b hb hreach c hc before after hsplit

end StoryGraph.Scene
