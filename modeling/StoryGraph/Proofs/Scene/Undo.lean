import StoryGraph.Proofs.Scene.InPlace

/-!
# Taking edits back

An edit that adds something has another that takes it away. In a sound draft one after the other leaves
everything as it was: what is added comes last, under a uid or an id that nothing else has, so that it is
found again, and no connection leads from or to what has just come.
-/

namespace StoryGraph

/-- What is put behind a list is found there and can be taken away, if nothing in the list passes the test. -/
theorem find?_append_singleton {α : Type} {q : α → Bool} {l : List α} {a : α} (hl : ∀ x ∈ l, ¬ q x)
    (ha : q a) : (l ++ [a]).find? q = some a ∧ (l ++ [a]).eraseP q = l := by
  constructor
  · rw [List.find?_append, List.find?_eq_none.mpr hl, Option.none_or, List.find?_cons_of_pos ha]
  · rw [List.eraseP_append_right _ hl, List.eraseP_cons_of_pos ha, List.append_nil]

namespace Scene

variable {s s' : Scene}

/-- A connection leaves a uid of its scene and ends at one. -/
theorem WellFormed.mem_uids_of_mem_connections (h : s.WellFormed) {c : Connection}
    (hc : c ∈ s.connections) : c.source ∈ s.uids ∧ c.target ∈ s.uids := by
  obtain ⟨⟨b, hb, hslot⟩, b', hb', huid, -⟩ := h.exists_link hc
  exact ⟨mem_uids.mpr ⟨b, hb, Bubble.source_mem_uids hslot⟩,
    mem_uids.mpr ⟨b', hb', huid ▸ b'.uid_mem_uids⟩⟩

/-- A change of a bubble can be taken back where it leaves the uid. -/
theorem updateBubble_back (s : Scene) {u : Uid} {b : Bubble} (hb : s.bubble? u = some b) {f g : Bubble → Bubble}
    (huid : ∀ x, (f x).uid = x.uid) (hback : g (f b) = b) : (s.updateBubble u f).updateBubble u g = s := by
  have hbubbles : updateFirst (·.uid = u) g (updateFirst (·.uid = u) f s.bubbles) = s.bubbles := by
    rw [updateFirst_updateFirst (fun x hx ↦ by simpa [huid] using hx)]
    refine updateFirst_eq_self fun x hx ↦ ?_
    obtain rfl := Option.some.inj (hb.symm.trans hx)
    exact hback
  simp only [updateBubble, hbubbles]

/-- A bubble that has been changed is found by its uid and by those of its options. -/
theorem find_updateBubble {f : Bubble → Bubble} {b : Bubble} (hb : s.bubble? b.uid = some b)
    (hwf : (s.updateBubble b.uid f).WellFormed) (huid : (f b).uid = b.uid) :
    (s.updateBubble b.uid f).bubble? b.uid = some (f b) ∧
      ∀ u ∈ (f b).optionUids, (s.updateBubble b.uid f).owner? u = some (f b) := by
  obtain ⟨rest, -, -, hupdate⟩ := exists_perm_of_find? hb
  have hmem : f b ∈ (s.updateBubble b.uid f).bubbles := (hupdate f).mem_iff.mpr List.mem_cons_self
  refine ⟨?_, fun u hu ↦ hwf.owner?_eq_some_iff.mpr ⟨hmem, hu⟩⟩
  exact huid ▸ hwf.bubble?_uid hmem

/-- A connection that has been made from a free slot can be removed again. -/
theorem disconnect_connect {slot : Slot} (hfree : s.link? slot = none) {target : Uid}
    {sourceAnchor targetAnchor : Anchor} {id : ConnectionId}
    (h : s.connect slot target sourceAnchor targetAnchor = .ok (id, s')) :
    s'.disconnect id = .ok (⟨id, slot, target, sourceAnchor, targetAnchor⟩, s) := by
  obtain ⟨-, -, hid, rfl⟩ := of_connect h
  have hkept : s.withoutLink slot = s := by
    refine congrArg (Scene.mk _ _) (List.filter_eq_self.mpr ?_)
    simpa [link?] using hfree
  rw [hkept] at hid ⊢
  obtain ⟨hfind, herase⟩ := find?_append_singleton (q := fun c : Connection ↦ c.id = id)
    (a := ⟨id, slot, target, sourceAnchor, targetAnchor⟩)
    (by simpa using fun c hc ↦ id_ne_of_toNat_eq_idBound hid (c := c) hc) (by simp)
  rw [disconnect, connection?, withLink, hfind]
  dsimp only
  rw [herase]

end Scene

namespace Draft

variable {name : String} {others : List Uid} {d d' : Draft} {b : Bubble} {u : Uid}

@[simp] theorem uid_withOption (o : ChoiceOption) (b : Bubble) : (withOption o b).uid = b.uid := by
  unfold withOption
  split <;> rfl

/-- An option that has been added to a choice can be taken away from it. -/
theorem withoutOption_withOption {options : List ChoiceOption} (hkind : b.kind = .choice options)
    (hfree : u ∉ b.optionUids) (text : String) :
    withoutOption u (withOption ⟨u, text⟩ b) = b ∧
      (withOption ⟨u, text⟩ b).options.find? (·.uid = u) = some ⟨u, text⟩ := by
  have hoptions : ∀ o ∈ options, ¬ decide (o.uid = u) := by
    simpa [Bubble.optionUids, Bubble.options, BubbleKind.options, hkind] using hfree
  obtain ⟨hfind, herase⟩ :=
    find?_append_singleton (q := fun o : ChoiceOption ↦ o.uid = u) (a := ⟨u, text⟩) hoptions (by simp)
  obtain ⟨uid, label, order, locked, kind⟩ := b
  obtain rfl : kind = .choice options := hkind
  exact ⟨congrArg (fun options ↦ Bubble.mk uid label order locked (.choice options)) herase, hfind⟩

namespace Sound

variable (h : d.Sound name others)

include h

theorem mem_pool_of_mem_connections {c : Connection} (hc : c ∈ d.scene.connections) :
    c.source ∈ d.pool ∧ c.target ∈ d.pool := by
  obtain ⟨hsource, htarget⟩ := h.wellFormed.mem_uids_of_mem_connections hc
  exact ⟨(h.mem_pool _).mpr (.inl hsource), (h.mem_pool _).mpr (.inl htarget)⟩

/-- A bubble that has been added can be removed again. -/
theorem removeBubble_of_adds (hstart : b.isStart = false) (hadd : d.Adds b d') :
    d'.removeBubble b.uid = .ok (b, d) := by
  obtain ⟨scene, pool⟩ := d'
  obtain ⟨rfl, -, hfree, hpool⟩ := hadd
  have hbubbles : ∀ x ∈ d.scene.bubbles, ¬ decide (x.uid = b.uid) := by
    intro x hx heq
    refine hfree b.uid b.uid_mem_uids ?_
    exact h.mem_pool_of_mem_uids hx (of_decide_eq_true heq ▸ x.uid_mem_uids)
  have hkept : d.scene.connections.filter (fun c ↦ c.source ∉ b.uids ∧ c.target ≠ b.uid) =
      d.scene.connections := by
    refine List.filter_eq_self.mpr fun c hc ↦ decide_eq_true ?_
    obtain ⟨hsource, htarget⟩ := h.mem_pool_of_mem_connections hc
    exact ⟨fun hmem ↦ hfree _ hmem hsource, fun heq ↦ hfree _ b.uid_mem_uids (heq ▸ htarget)⟩
  obtain ⟨hfind, herase⟩ := find?_append_singleton hbubbles (decide_eq_true rfl)
  rw [Draft.removeBubble, Scene.bubble?, hfind]
  dsimp only
  rw [hstart, herase, hkept, UidPool.eraseAll_eq_of_mem_iff hfree hpool]
  rfl

/-- An option that has been added can be removed again. -/
theorem removeOption_addOption {choice : Uid} {text : String}
    (hadd : d.addOption choice text = .ok (u, d')) : d'.removeOption u = (.ok ⟨u, text⟩, d) := by
  have h' := (h.addOption hadd).wellFormed
  obtain ⟨b, options, hb, hkind, hfree, hscene, hmem⟩ := of_addOption hadd
  obtain ⟨scene, pool⟩ := d'
  obtain rfl := hscene
  obtain rfl := Scene.uid_of_bubble? hb
  have hfree' : u ∉ b.optionUids := fun hu ↦
    hfree (h.mem_pool_of_mem_uids (Scene.mem_of_bubble? hb) (Bubble.mem_uids_of_mem_optionUids hu))
  obtain ⟨hback, hfind⟩ := withoutOption_withOption hkind hfree' text
  have hoption : u ∈ (withOption ⟨u, text⟩ b).optionUids :=
    List.mem_map.mpr ⟨_, List.mem_of_find?_eq_some hfind, rfl⟩
  obtain ⟨hbubble, howner⟩ := Scene.find_updateBubble hb h' (uid_withOption _ b)
  -- no link leaves the option, and its uid goes back
  have hkept : d.scene.connections.filter (·.source ≠ u) = d.scene.connections := by
    refine List.filter_eq_self.mpr fun c hc ↦ decide_eq_true ?_
    rintro rfl
    exact hfree (h.mem_pool_of_mem_connections hc).1
  have hpool : pool.eraseAll [u] = d.pool :=
    UidPool.eraseAll_eq_of_mem_iff (by simpa using hfree) (by simpa using hmem)
  rw [Draft.removeOption, howner u hoption]
  dsimp only
  rw [uid_withOption, hbubble, Option.bind_some, hfind]
  show (_, (⟨Scene.updateBubble ⟨_, _, d.scene.connections.filter _⟩ _ _, pool.eraseAll [u]⟩ : Draft)) = _
  rw [hkept, hpool]
  have hscene := d.scene.updateBubble_back hb (uid_withOption ⟨u, text⟩) hback
  exact Prod.ext rfl (congrArg (Draft.mk · d.pool) hscene)

end Sound

end Draft

end StoryGraph
