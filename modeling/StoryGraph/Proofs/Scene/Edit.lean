import StoryGraph.Proofs.Scene.Repair
import StoryGraph.Proofs.Scene.Sound
import StoryGraph.Scene.Order

/-!
# Edits keep drafts sound

`SceneEdit` has the edits of a scene, and `SceneEdit.apply` what each of them leaves behind, whether it
succeeds or fails. Every one of them keeps a sound draft sound, and leaves the scene its name.
-/

namespace StoryGraph

/-- What is left behind where something is tried: what it comes to, or what was there if it fails. -/
def attempt {σ : Type} (s : σ) : Except Error σ → Except Error Unit × σ
  | .ok s' => (.ok (), s')
  | .error e => (.error e, s)

/-- A change of what a bubble says, or of how it is ordered. -/
inductive FieldEdit where
  | label (label : String)
  | order (order : Int64)
  | locked (locked : Bool)
  /-- The text of a story, the script of an action, or the expression of a condition. -/
  | text (text : String)
  | optionText (option : Uid) (text : String)
deriving DecidableEq, Repr

def FieldEdit.apply (b : Bubble) : FieldEdit → Bubble
  | .label name => { b with label := name }
  | .order place => { b with order := place }
  | .locked fixed => { b with locked := fixed }
  | .text words =>
      match b.kind with
      | .story _ => { b with kind := .story words }
      | .action _ => { b with kind := .action words }
      | .condition _ => { b with kind := .condition words }
      | .start | .choice _ => b
  | .optionText uid words =>
      match b.kind with
      | .choice options =>
          { b with
            kind := .choice (updateFirst (·.uid = uid) (fun o ↦ { o with text := words }) options) }
      | _ => b

/-- An edit of a scene. -/
inductive SceneEdit where
  | addBubble (kind : BubbleKind)
  | insertBubble (bubble : Bubble)
  | addOption (choice : Uid) (text : String)
  | removeOption (option : Uid)
  | removeBubble (uid : Uid)
  | connect (slot : Slot) (target : Uid) (sourceAnchor targetAnchor : Anchor)
  | disconnect (id : ConnectionId)
  | repair
  | computeOrder
  | set (uid : Uid) (field : FieldEdit)
deriving DecidableEq, Repr

def SceneEdit.apply (d : Draft) : SceneEdit → Except Error Unit × Draft
  | .addBubble kind => attempt d ((d.addBubble kind).map (·.2))
  | .insertBubble bubble => attempt d (d.insertBubble bubble)
  | .addOption choice text => attempt d ((d.addOption choice text).map (·.2))
  | .removeOption option =>
      let (result, d) := d.removeOption option
      (result.map fun _ ↦ (), d)
  | .removeBubble uid => attempt d ((d.removeBubble uid).map (·.2))
  | .connect slot target sourceAnchor targetAnchor =>
      attempt d ((d.scene.connect slot target sourceAnchor targetAnchor).map
        fun (_, scene) ↦ { d with scene })
  | .disconnect id => attempt d ((d.scene.disconnect id).map fun (_, scene) ↦ { d with scene })
  | .repair => (.ok (), { d with scene := d.scene.repair.1 })
  | .computeOrder => attempt d (d.scene.computeOrder.map fun (_, scene) ↦ { d with scene })
  | .set uid field => (.ok (), { d with scene := d.scene.updateBubble uid fun b ↦ field.apply b })

/-! ## The options of a choice -/

namespace Draft

variable {b : Bubble} {options : List ChoiceOption} (hkind : b.kind = .choice options)

include hkind

/-- One more option adds its uid and its slot to a choice. -/
theorem of_withOption (o : ChoiceOption) :
    (withOption o b).uid = b.uid ∧ (withOption o b).isStart = b.isStart ∧
      (withOption o b).uids = b.uids ++ [o.uid] ∧ ∀ slot ∈ b.slots, slot ∈ (withOption o b).slots := by
  have hkind' : (withOption o b).kind = .choice (options ++ [o]) := by simp [withOption, hkind]
  have huid : (withOption o b).uid = b.uid := by simp [withOption, hkind]
  refine ⟨huid, ?_, ?_, ?_⟩
  · simp [Bubble.isStart, Bubble.type, BubbleKind.type, hkind, hkind']
  · simp [Bubble.uids, huid, Bubble.optionUids, Bubble.options, BubbleKind.options, hkind, hkind']
  · intro slot hslot
    obtain ⟨hexit, o', ho', hsource⟩ := (Bubble.mem_slots_of_choice hkind).mp hslot
    exact (Bubble.mem_slots_of_choice hkind').mpr ⟨hexit, o', List.mem_append_left _ ho', hsource⟩

/-- Without an option a choice loses its uid and its slot. -/
theorem of_withoutOption {option : Uid} {removed : ChoiceOption}
    (hfind : options.find? (·.uid = option) = some removed) :
    (withoutOption option b).uid = b.uid ∧ (withoutOption option b).isStart = b.isStart ∧
      b.uids.Perm (option :: (withoutOption option b).uids) ∧
      ∀ slot ∈ b.slots, slot.source ≠ option → slot ∈ (withoutOption option b).slots := by
  obtain ⟨rest, hperm, herase, -⟩ := exists_perm_of_find? hfind
  obtain rfl : removed.uid = option := by simpa using List.find?_some hfind
  have hkind' : (withoutOption removed.uid b).kind = .choice (options.eraseP (·.uid = removed.uid)) := by
    simp [withoutOption, hkind]
  have huid : (withoutOption removed.uid b).uid = b.uid := by simp [withoutOption, hkind]
  refine ⟨huid, ?_, ?_, ?_⟩
  · simp [Bubble.isStart, Bubble.type, BubbleKind.type, hkind, hkind']
  · simp only [Bubble.uids, Bubble.optionUids, Bubble.options, BubbleKind.options, hkind, hkind', huid]
    have hoptions : (options.map (·.uid)).Perm
        (removed.uid :: (options.eraseP (·.uid = removed.uid)).map (·.uid)) :=
      (hperm.map _).trans ((herase.symm.map _).cons _)
    exact (hoptions.cons _).trans (.swap _ _ _)
  · intro slot hslot hne
    obtain ⟨hexit, o, ho, hsource⟩ := (Bubble.mem_slots_of_choice hkind).mp hslot
    refine (Bubble.mem_slots_of_choice hkind').mpr ⟨hexit, o, ?_, hsource⟩
    exact (List.mem_eraseP_of_neg (by simpa [hsource] using hne)).mpr ho

end Draft

/-! ## What adding leaves behind -/

namespace Draft

/-- `d.Adds b d'`: one draft has a bubble more than another, behind the others. Its uids were free, and now
they are in use. -/
structure Adds (d : Draft) (b : Bubble) (d' : Draft) : Prop where
  scene_eq : d'.scene = { d.scene with bubbles := d.scene.bubbles ++ [b] }
  nodup_uids : b.uids.Nodup
  free : ∀ u ∈ b.uids, u ∉ d.pool
  mem_pool : ∀ u, u ∈ d'.pool ↔ u ∈ b.uids ∨ u ∈ d.pool

variable {d d' : Draft} {u : Uid}

theorem of_addBubble {kind : BubbleKind} (hadd : d.addBubble kind = .ok (u, d')) :
    kind ≠ .start ∧ d.Adds (.create u kind) d' := by
  unfold Draft.addBubble at hadd
  split at hadd
  · contradiction
  · rename_i hkind
    obtain ⟨⟨uid, pool⟩, hallocate, hadd⟩ := bind_eq_ok.mp hadd
    obtain ⟨pool', hclaim, hadd⟩ := bind_eq_ok.mp hadd
    obtain ⟨rfl, rfl⟩ := Prod.mk.inj (Except.ok.inj hadd)
    obtain ⟨hfree, hpool⟩ := UidPool.of_allocate hallocate
    obtain ⟨hnodup, hfree', hpool'⟩ := UidPool.of_claimAll hclaim
    have huid : uid ∉ (Bubble.create uid kind).optionUids := fun hmem ↦
      hfree' uid hmem ((hpool uid).mpr (.inl rfl))
    refine ⟨hkind, rfl, List.nodup_cons.mpr ⟨huid, hnodup⟩, ?_, ?_⟩
    · intro v hv
      rcases List.mem_cons.mp hv with rfl | hv
      · exact hfree
      · exact fun hmem ↦ hfree' v hv ((hpool v).mpr (.inr hmem))
    · intro v
      rw [hpool', hpool, Bubble.uids, List.mem_cons]
      exact or_left_comm.trans or_assoc.symm

theorem of_insertBubble {b : Bubble} (hadd : d.insertBubble b = .ok d') :
    ¬ (b.isStart && d.scene.start?.isSome) ∧ d.Adds b d' := by
  unfold Draft.insertBubble at hadd
  split at hadd
  · contradiction
  · rename_i hstart
    obtain ⟨pool, hclaim, hadd⟩ := bind_eq_ok.mp hadd
    obtain rfl := Except.ok.inj hadd
    obtain ⟨hnodup, hfree, hpool⟩ := UidPool.of_claimAll hclaim
    exact ⟨hstart, rfl, hnodup, hfree, hpool⟩

theorem of_addOption {choice : Uid} {text : String} (hadd : d.addOption choice text = .ok (u, d')) :
    ∃ b options, d.scene.bubble? choice = some b ∧ b.kind = .choice options ∧ u ∉ d.pool ∧
      d'.scene = d.scene.updateBubble choice (withOption ⟨u, text⟩) ∧
      ∀ v, v ∈ d'.pool ↔ v = u ∨ v ∈ d.pool := by
  unfold Draft.addOption at hadd
  split at hadd
  · contradiction
  · rename_i b hb
    split at hadd
    · contradiction
    · rename_i hchoice
      obtain ⟨⟨uid, pool⟩, hallocate, hadd⟩ := bind_eq_ok.mp hadd
      obtain ⟨rfl, rfl⟩ := Prod.mk.inj (Except.ok.inj hadd)
      obtain ⟨hfree, hpool⟩ := UidPool.of_allocate hallocate
      obtain ⟨options, hkind⟩ := Bubble.isChoice_iff.mp (by simpa using hchoice)
      exact ⟨b, options, hb, hkind, hfree, rfl, hpool⟩

end Draft

/-! ## Bubbles and options -/

namespace Draft.Sound

variable {name : String} {others : List Uid} {d d' : Draft} (h : d.Sound name others)

include h

/-- The uids of a bubble are in use. -/
theorem mem_pool_of_mem_uids {b : Bubble} (hb : b ∈ d.scene.bubbles) {u : Uid} (hu : u ∈ b.uids) :
    u ∈ d.pool := (h.mem_pool u).mpr (.inl (Scene.mem_uids.mpr ⟨b, hb, hu⟩))

/-- A draft stays sound if a bubble is added that is no start. -/
theorem add {b : Bubble} (hstart : b.isStart = false) (hadd : d.Adds b d') : d'.Sound name others := by
  obtain ⟨scene, pool⟩ := d'
  obtain ⟨rfl, hnodup, hfree, hpool⟩ := hadd
  have hgone : d.scene.bubbles.Perm ([] ++ d.scene.bubbles) := .refl _
  have hnew : (d.scene.bubbles ++ [b]).Perm ([b] ++ d.scene.bubbles) := List.perm_append_comm
  refine h.exchange ⟨rfl, hgone, hnew, ?_, ?_, ?_, ?_, .refl _, by simp, by simp⟩
  · simp [hstart]
  · simpa using hnodup
  · simpa using hfree
  · simpa using hpool

theorem addBubble {kind : BubbleKind} {u : Uid} (hadd : d.addBubble kind = .ok (u, d')) :
    d'.Sound name others := by
  obtain ⟨hkind, hadds⟩ := of_addBubble hadd
  exact h.add (Bubble.isStart_create hkind) hadds

/-- There is a start already, so what is added is none. -/
theorem isStart_eq_false_of_insertBubble {b : Bubble} (hadd : d.insertBubble b = .ok d') :
    b.isStart = false := by
  obtain ⟨start, hsome, -⟩ := h.wellFormed.exists_start
  simpa [hsome] using (of_insertBubble hadd).1

theorem insertBubble {b : Bubble} (hadd : d.insertBubble b = .ok d') : d'.Sound name others :=
  h.add (h.isStart_eq_false_of_insertBubble hadd) (of_insertBubble hadd).2

/-- A draft stays sound if a bubble changes in place: it takes up uids that it had, or free ones, and has
the slots that connections leave. -/
theorem amend {u : Uid} {b : Bubble} (hb : d.scene.bubble? u = some b) {f : Bubble → Bubble}
    {pool : UidPool} {connections : List Connection} (huid : (f b).uid = b.uid)
    (hstart : (f b).isStart = b.isStart) (hnodup : (f b).uids.Nodup)
    (hfree : ∀ v ∈ (f b).uids, v ∈ b.uids ∨ v ∉ d.pool)
    (hpool : ∀ v, v ∈ pool ↔ v ∈ (f b).uids ∨ v ∈ d.pool ∧ v ∉ b.uids)
    (hsub : connections.Sublist d.scene.connections)
    (hslot : ∀ c ∈ connections, c.slot ∈ b.slots → c.slot ∈ (f b).slots) :
    Sound name others ⟨{ d.scene.updateBubble u f with connections }, pool⟩ := by
  obtain ⟨rest, hgone, -, hupdate⟩ := exists_perm_of_find? hb
  have hgone : d.scene.bubbles.Perm ([b] ++ rest) := hgone
  have hnew : (d.scene.updateBubble u f).bubbles.Perm ([f b] ++ rest) := hupdate f
  refine h.exchange ⟨rfl, hgone, hnew, ?_, ?_, ?_, ?_, hsub, ?_, ?_⟩
  · simp [hstart]
  · simpa using hnodup
  · simpa using hfree
  · simpa using hpool
  · simpa using hslot
  · simp only [List.mem_singleton, forall_eq, exists_eq_left, huid, hstart]
    exact fun _ _ htarget hno ↦ ⟨htarget, hno⟩

theorem addOption {choice u : Uid} {text : String} (hadd : d.addOption choice text = .ok (u, d')) :
    d'.Sound name others := by
  obtain ⟨b, options, hb, hkind, hfree, hscene, hpool⟩ := of_addOption hadd
  obtain ⟨scene, pool⟩ := d'
  obtain rfl := hscene
  obtain ⟨huid, hstart, huids, hslots⟩ := of_withOption hkind ⟨u, text⟩
  have hmem := Scene.mem_of_bubble? hb
  have hused : ∀ v ∈ b.uids, v ∈ d.pool := fun v ↦ h.mem_pool_of_mem_uids hmem
  refine h.amend hb huid hstart ?_ ?_ ?_ (.refl _) fun c _ ↦ hslots c.slot
  · rw [huids]
    refine List.nodup_append'.mpr ⟨h.wellFormed.nodup_uids_of_mem hmem, by simp, ?_⟩
    simpa using fun hu ↦ hfree (hused u hu)
  · rw [huids]
    intro v hv
    rcases List.mem_append.mp hv with hv | hv
    · exact .inl hv
    · exact .inr (List.mem_singleton.mp hv ▸ hfree)
  · intro v
    rw [huids, hpool, List.mem_append, List.mem_singleton]
    have := hused v
    tauto

/-- Removing an option takes its link away, and it fails only where there is no such option. -/
theorem removeOption (option : Uid) : (d.removeOption option).2.Sound name others := by
  unfold Draft.removeOption
  have hkept : (d.scene.connections.filter (·.source ≠ option)).Sublist d.scene.connections :=
    List.filter_sublist
  split
  · exact h
  · rename_i owner howner
    dsimp only
    split
    · exact h.relink (h.wellFormed.of_sublist hkept)
    · rename_i removed hremoved
      obtain ⟨b, hb, hfind⟩ := Option.bind_eq_some_iff.mp hremoved
      have hmem := Scene.mem_of_bubble? hb
      obtain ⟨options, hkind⟩ : ∃ options, b.kind = .choice options := by
        cases hkind : b.kind <;> simp_all [Bubble.options, BubbleKind.options]
      simp only [Bubble.options, hkind, BubbleKind.options] at hfind
      obtain ⟨huid, hstart, huids, hslots⟩ := of_withoutOption hkind hfind
      have hnodup := huids.nodup_iff.mp (h.wellFormed.nodup_uids_of_mem hmem)
      obtain ⟨hnot, hnodup'⟩ := List.nodup_cons.mp hnodup
      have hused : ∀ v ∈ b.uids, v ∈ d.pool := fun v ↦ h.mem_pool_of_mem_uids hmem
      refine h.amend hb huid hstart hnodup' ?_ ?_ hkept ?_
      · exact fun v hv ↦ .inl (huids.mem_iff.mpr (List.mem_cons_of_mem _ hv))
      · intro v
        have hv := hused v
        have hne : v ∈ (withoutOption option b).uids → v ≠ option := fun hv heq ↦ hnot (heq ▸ hv)
        rw [huids.mem_iff, List.mem_cons] at hv ⊢
        rw [UidPool.mem_erase]
        tauto
      · intro c hc hslot
        exact hslots c.slot hslot (of_decide_eq_true (List.mem_filter.mp hc).2)

theorem removeBubble {u : Uid} {b : Bubble} (hremove : d.removeBubble u = .ok (b, d')) :
    d'.Sound name others := by
  unfold Draft.removeBubble at hremove
  split at hremove
  · contradiction
  · rename_i b' hb
    split at hremove
    · contradiction
    · rename_i hstart
      obtain ⟨rfl, rfl⟩ := Prod.mk.inj (Except.ok.inj hremove)
      obtain ⟨rest, hgone, herase, -⟩ := exists_perm_of_find? hb
      obtain rfl := Scene.uid_of_bubble? hb
      have hmem := Scene.mem_of_bubble? hb
      have hgone : d.scene.bubbles.Perm ([b'] ++ rest) := hgone
      have hnew : (d.scene.bubbles.eraseP (·.uid = b'.uid)).Perm ([] ++ rest) := herase
      have hkept : ∀ c ∈ d.scene.connections.filter fun c ↦ c.source ∉ b'.uids ∧ c.target ≠ b'.uid,
          c.source ∉ b'.uids ∧ c.target ≠ b'.uid := fun c hc ↦ by
        simpa using (List.mem_filter.mp hc).2
      refine h.exchange ⟨rfl, hgone, hnew, ?_, ?_, ?_, ?_, List.filter_sublist, ?_, ?_⟩
      · simpa using hstart
      · simp
      · simp
      · simp
      · simp only [List.mem_singleton, forall_eq]
        exact fun c hc hslot ↦ absurd (Bubble.source_mem_uids hslot) (hkept c hc).1
      · simp only [List.mem_singleton, forall_eq]
        exact fun c hc htarget ↦ absurd htarget.symm (hkept c hc).2

theorem updateBubble (u : Uid) {f : Bubble → Bubble} (hshape : ∀ b, (f b).shape = b.shape) :
    Sound name others { d with scene := d.scene.updateBubble u f } :=
  h.reshape (d.scene.map_shape_updateBubble u hshape)

end Draft.Sound

/-! ## Connections -/

namespace Scene

variable {s s' : Scene}

/-- The scene without what leaves a slot. -/
def withoutLink (s : Scene) (slot : Slot) : Scene :=
  { s with connections := s.connections.filter (·.slot ≠ slot) }

/-- The scene with one connection more. -/
def withLink (s : Scene) (c : Connection) : Scene := { s with connections := s.connections ++ [c] }

theorem mem_connections_withoutLink {slot : Slot} {c : Connection} :
    c ∈ (s.withoutLink slot).connections ↔ c ∈ s.connections ∧ c.slot ≠ slot := by
  rw [withoutLink, List.mem_filter, decide_eq_true_iff]

theorem sublist_withoutLink (s : Scene) (slot : Slot) :
    (s.withoutLink slot).connections.Sublist s.connections := List.filter_sublist

/-- The least number above the ids of connections. -/
def idBound (cs : List Connection) : Nat := cs.foldl (fun n c ↦ max n (c.id.toNat + 1)) 0

theorem idBound_le_iff {cs : List Connection} {n : Nat} :
    idBound cs ≤ n ↔ ∀ c ∈ cs, c.id.toNat < n := by
  have hfold (k : Nat) : cs.foldl (fun n c ↦ max n (c.id.toNat + 1)) k ≤ n ↔
      k ≤ n ∧ ∀ c ∈ cs, c.id.toNat < n := by
    induction cs generalizing k with
    | nil => simp
    | cons c cs ih => rw [List.foldl_cons, ih, Nat.max_le, List.forall_mem_cons, Nat.succ_le_iff, and_assoc]
  rw [idBound, hfold]
  exact and_iff_right (Nat.zero_le n)

theorem lt_idBound {cs : List Connection} {c : Connection} (hc : c ∈ cs) : c.id.toNat < idBound cs :=
  idBound_le_iff.mp (Nat.le_refl _) c hc

theorem nextConnectionId?_eq_none_iff : s.nextConnectionId? = none ↔ UInt32.size ≤ idBound s.connections := by
  change ConnectionId.ofNat? (idBound s.connections) = none ↔ _
  rw [ConnectionId.ofNat?, ite_eq_right_iff, ← Nat.not_lt]
  simp

/-- A new connection gets the least id above all others. -/
theorem toNat_of_nextConnectionId? {id : ConnectionId} (h : s.nextConnectionId? = some id) :
    id.toNat = idBound s.connections := by
  change ConnectionId.ofNat? (idBound s.connections) = some id at h
  unfold ConnectionId.ofNat? at h
  split at h
  · rename_i hlt
    obtain rfl := Option.some.inj h
    exact UInt32.toNat_ofNat_of_lt' hlt
  · contradiction

theorem isSome_container?_of_hasSlot {slot : Slot} (h : s.hasSlot slot) :
    (s.container? slot.source).isSome := by
  unfold hasSlot at h
  unfold container?
  cases hb : s.bubble? slot.source with
  | some b => rfl
  | none => simpa [hb] using (Bool.and_eq_true_iff.mp (hb ▸ h)).2

theorem isSome_container?_of_isTarget {u : Uid} (h : s.isTarget u) : (s.container? u).isSome := by
  unfold isTarget at h
  unfold container?
  cases hb : s.bubble? u with
  | some b => rfl
  | none => simp [hb] at h

/-- A slot can be linked exactly if it is there, to exactly what links may end at. -/
theorem checkLink_eq_ok_iff {slot : Slot} {target : Uid} :
    s.checkLink slot target = .ok () ↔ s.hasSlot slot ∧ s.isTarget target := by
  constructor
  · intro h
    obtain ⟨-, h⟩ := of_check h
    obtain ⟨hslot, h⟩ := of_check h
    obtain ⟨-, h⟩ := of_check h
    by_cases htarget : s.isTarget target
    · exact ⟨by simpa using hslot, htarget⟩
    · simp [htarget] at h
  · rintro ⟨hslot, htarget⟩
    have hsource := isSome_container?_of_hasSlot hslot
    have hcontainer := isSome_container?_of_isTarget htarget
    rw [← Option.not_isNone, Bool.not_eq_true'] at hsource hcontainer
    simp [checkLink, hsource, hslot, hcontainer, htarget]
    rfl

/-- What left a slot goes before an id is looked for. -/
theorem connect_of_checkLink {slot : Slot} {target : Uid} (h : s.checkLink slot target = .ok ())
    (sourceAnchor targetAnchor : Anchor) :
    s.connect slot target sourceAnchor targetAnchor =
      match (s.withoutLink slot).nextConnectionId? with
      | none => .error .overflow
      | some id =>
          .ok (id, (s.withoutLink slot).withLink ⟨id, slot, target, sourceAnchor, targetAnchor⟩) := by
  rw [connect, h]
  rfl

/-- A connection is added behind the others, none of which leaves its slot, and gets the least id above
theirs. -/
theorem of_connect {slot : Slot} {target : Uid} {sourceAnchor targetAnchor : Anchor} {id : ConnectionId}
    (h : s.connect slot target sourceAnchor targetAnchor = .ok (id, s')) :
    s.hasSlot slot ∧ s.isTarget target ∧ id.toNat = idBound (s.withoutLink slot).connections ∧
      s' = (s.withoutLink slot).withLink ⟨id, slot, target, sourceAnchor, targetAnchor⟩ := by
  obtain ⟨_, hcheck, -⟩ := bind_eq_ok.mp h
  obtain ⟨hslot, htarget⟩ := checkLink_eq_ok_iff.mp hcheck
  refine ⟨hslot, htarget, ?_⟩
  rw [connect_of_checkLink hcheck] at h
  split at h
  · contradiction
  · rename_i id' hid
    obtain ⟨rfl, rfl⟩ := Prod.mk.inj (Except.ok.inj h)
    exact ⟨toNat_of_nextConnectionId? hid, rfl⟩

/-- So it gets an id that no other has. -/
theorem id_ne_of_toNat_eq_idBound {cs : List Connection} {id : ConnectionId} (h : id.toNat = idBound cs)
    {c : Connection} (hc : c ∈ cs) : c.id ≠ id := by
  rintro rfl
  exact Nat.ne_of_lt (lt_idBound hc) h

theorem of_disconnect {id : ConnectionId} {c : Connection} (h : s.disconnect id = .ok (c, s')) :
    s' = { s with connections := s.connections.eraseP (·.id = id) } := by
  unfold disconnect at h
  split at h
  · contradiction
  · exact (Prod.mk.inj (Except.ok.inj h)).2.symm

theorem WellFormed.connect (h : s.WellFormed) {slot : Slot} {target : Uid}
    {sourceAnchor targetAnchor : Anchor} {id : ConnectionId}
    (hconnect : s.connect slot target sourceAnchor targetAnchor = .ok (id, s')) :
    s'.WellFormed := by
  obtain ⟨hslot, htarget, hid, rfl⟩ := of_connect hconnect
  have hkept := h.of_sublist (s.sublist_withoutLink slot)
  constructor
  · exact h.start_unique
  · exact h.nodup_uids
  · intro c hc
    rcases List.mem_append.mp hc with hc | hc
    · exact hkept.resolves c hc
    · obtain rfl := List.mem_singleton.mp hc
      exact Bool.and_eq_true_iff.mpr ⟨hslot, htarget⟩
  · rw [withLink, List.map_append]
    refine List.nodup_append'.mpr ⟨hkept.nodup_ids, by simp, ?_⟩
    simpa using fun c hc ↦ id_ne_of_toNat_eq_idBound hid (c := c) hc
  · rw [withLink, List.map_append]
    refine List.nodup_append'.mpr ⟨hkept.nodup_slots, by simp, ?_⟩
    simpa using fun c hc ↦ (mem_connections_withoutLink (c := c).mp hc).2

/-! ## Repairing -/

/-- Whatever connections a scene has, it is well-formed once it has been repaired. -/
theorem wellFormed_repair (hstart : s.bubbles.countP (·.isStart) = 1) (hnodup : s.uids.Nodup) :
    s.repair.1.WellFormed := by
  have h := s.resolved_fst_repair
  exact ⟨hstart, hnodup, fun c hc ↦ resolves_iff.mpr ⟨h.leaves c hc, h.ends c hc⟩, h.nodup_ids,
    h.nodup_slots⟩

/-! ## Ordering -/

/-- A scene as it is without the orders of its bubbles. -/
def unordered (s : Scene) : Scene := { s with bubbles := s.bubbles.map fun b ↦ { b with order := 0 } }

/-- Orders do not show in the graph of a scene. -/
theorem of_unordered (h : s'.unordered = s.unordered) :
    s'.name = s.name ∧ s'.connections = s.connections ∧
      s'.bubbles.map (·.shape) = s.bubbles.map (·.shape) := by
  refine ⟨congrArg (·.name) h, congrArg (·.connections) h, ?_⟩
  have hshape := congrArg (fun t : Scene ↦ t.bubbles.map (·.shape)) h
  simpa [unordered, List.map_map, Function.comp_def, Bubble.shape, Bubble.type, Bubble.optionUids,
    Bubble.options] using hshape

theorem unordered_setOrder (s : Scene) (u : Uid) (order : Int64) :
    (s.setOrder u order).unordered = s.unordered := by
  refine congrArg (Scene.mk _ · _) (map_updateFirst ?_ s.bubbles)
  intro b _
  rfl

theorem unordered_withOrders (s : Scene) (given : List (Uid × Int64)) :
    (s.withOrders given).unordered = s.unordered := by
  induction given with
  | nil => rfl
  | cons entry given ih => exact (unordered_setOrder _ _ _).trans ih

theorem unordered_pinStart (s : Scene) : s.pinStart.unordered = s.unordered := by
  refine congrArg (Scene.mk _ · _) (map_updateFirst ?_ s.bubbles)
  intro b _
  split <;> rfl

theorem unordered_of_computeOrder {count : Nat} (h : s.computeOrder = .ok (count, s')) :
    s'.unordered = s.unordered := by
  unfold computeOrder at h
  split at h
  · contradiction
  · split at h
    · obtain ⟨-, rfl⟩ := Prod.mk.inj (Except.ok.inj h)
      exact s.unordered_pinStart
    · obtain ⟨w, -, h⟩ := bind_eq_ok.mp h
      obtain ⟨-, rfl⟩ := Prod.mk.inj (Except.ok.inj h)
      exact (s.pinStart.unordered_withOrders w.given).trans s.unordered_pinStart

theorem of_withOrders (s : Scene) (given : List (Uid × Int64)) :
    (s.withOrders given).name = s.name ∧ (s.withOrders given).connections = s.connections ∧
      (s.withOrders given).bubbles.map (·.shape) = s.bubbles.map (·.shape) :=
  of_unordered (s.unordered_withOrders given)

theorem of_computeOrder {count : Nat} (h : s.computeOrder = .ok (count, s')) :
    s'.name = s.name ∧ s'.connections = s.connections ∧
      s'.bubbles.map (·.shape) = s.bubbles.map (·.shape) :=
  of_unordered (unordered_of_computeOrder h)

theorem WellFormed.computeOrder (hs : s.WellFormed) {count : Nat}
    (h : s.computeOrder = .ok (count, s')) : s'.WellFormed := by
  obtain ⟨hname, hconnections, hshape⟩ := of_computeOrder h
  obtain ⟨name, bubbles, connections⟩ := s'
  obtain rfl := hname
  obtain rfl := hconnections
  exact hs.reshape hshape

end Scene

/-! ## Any edit -/

theorem FieldEdit.shape_apply (field : FieldEdit) (b : Bubble) : (field.apply b).shape = b.shape := by
  cases field with
  | label | order | locked => rfl
  | text words =>
      simp only [apply]
      split <;> simp [Bubble.shape, Bubble.type, Bubble.optionUids, Bubble.options, BubbleKind.type,
        BubbleKind.options, *]
  | optionText uid words =>
      simp only [apply]
      split
      · rename_i options hkind
        simp [Bubble.shape, Bubble.type, Bubble.optionUids, Bubble.options, BubbleKind.type,
          BubbleKind.options, hkind, map_updateFirst]
      · rfl

/-- What holds before something is tried, and where it succeeds, holds of what is left behind. -/
theorem of_attempt {σ : Type} {P : σ → Prop} {s : σ} {result : Except Error σ} (hs : P s)
    (hok : ∀ s', result = .ok s' → P s') : P (attempt s result).2 := by
  cases result with
  | error e => exact hs
  | ok s' => exact hok s' rfl

theorem of_attempt_map {σ α : Type} {P : σ → Prop} {s : σ} {result : Except Error α} {f : α → σ}
    (hs : P s) (hok : ∀ a, result = .ok a → P (f a)) : P (attempt s (result.map f)).2 := by
  cases result with
  | error e => exact hs
  | ok a => exact hok a rfl

/-- A sound draft is sound after any edit, whether it succeeds or fails. -/
theorem Draft.Sound.apply {name : String} {others : List Uid} {d : Draft} (h : d.Sound name others)
    (e : SceneEdit) : (e.apply d).2.Sound name others := by
  cases e with
  | addBubble kind => exact of_attempt_map h fun _ hok ↦ h.addBubble hok
  | insertBubble b => exact of_attempt h fun _ hok ↦ h.insertBubble hok
  | addOption choice text => exact of_attempt_map h fun _ hok ↦ h.addOption hok
  | removeOption option => exact h.removeOption option
  | removeBubble u => exact of_attempt_map h fun _ hok ↦ h.removeBubble hok
  | connect slot target sourceAnchor targetAnchor =>
      refine of_attempt_map h fun ⟨id, s'⟩ hok ↦ ?_
      have hwf := h.wellFormed.connect hok
      obtain ⟨-, -, -, rfl⟩ := Scene.of_connect hok
      exact h.relink hwf
  | disconnect id =>
      refine of_attempt_map h fun ⟨c, s'⟩ hok ↦ ?_
      obtain rfl := Scene.of_disconnect hok
      exact h.relink (h.wellFormed.of_sublist List.eraseP_sublist)
  | repair =>
      exact h.relink (Scene.wellFormed_repair h.wellFormed.start_unique h.wellFormed.nodup_uids)
  | computeOrder =>
      refine of_attempt_map h fun ⟨count, s'⟩ hok ↦ ?_
      obtain ⟨hname, hconnections, hshape⟩ := Scene.of_computeOrder hok
      obtain ⟨name', bubbles, connections⟩ := s'
      obtain rfl := hname
      obtain rfl := hconnections
      exact h.reshape hshape
  | set u field => exact h.updateBubble u field.shape_apply

end StoryGraph
