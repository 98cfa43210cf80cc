import StoryGraph.Proofs.Script.Depth
import StoryGraph.Proofs.Script.Tree

/-!
# A script is a forest

Emission keeps a record of what it has emitted, forces labels and begins again. Its script can be drawn
without any of that: it is the trees of some bubbles, its roots, along the sequence. A bubble that is no
root has been emitted when its turn comes, and a root has not. Otherwise a link would be met later whose
target had been emitted, and that would have been found stranded.
-/

namespace StoryGraph

namespace LabelPolicy

/-- Whether the link of the start ends at a bubble. -/
def isEntry (p : LabelPolicy) (u : Uid) : Bool :=
  p.scene.start?.any fun start ↦ (p.scene.link? ⟨start.uid, .next⟩).any (·.target = u)

/-- Whether the tree of a bubble stands on its own. That is so for the start, where no connection ends
and where there is a label, but not after a start whose link ends there; and it is so where the link of a
start ends that comes later. -/
def isRoot (p : LabelPolicy) (u : Uid) : Bool :=
  let isStart := p.scene.start?.any (·.uid = u)
  let afterStart := p.scene.start?.any fun start ↦ p.comesBefore start.uid u
  let beforeStart := p.scene.start?.any fun start ↦ p.comesBefore u start.uid
  (isStart || (p.scene.incoming u).isEmpty || p.needsLabel u) && !(p.isEntry u && afterStart) ||
    p.isEntry u && beforeStart

/-- The trees of the roots along the sequence, at level 0. -/
def forest? (p : LabelPolicy) (room : Nat) : Option (List Item) :=
  p.drawAll (p.tree? room) ((p.sequence.filter p.isRoot).map (.bubble 0))

variable {p : LabelPolicy} {start : Bubble} {u : Uid}

theorem isEntry_iff (hstart : p.scene.start? = some start) :
    p.isEntry u ↔ ∃ c, p.scene.link? ⟨start.uid, .next⟩ = some c ∧ c.target = u := by
  cases hlink : p.scene.link? ⟨start.uid, .next⟩ <;> simp [isEntry, hstart, hlink]

theorem isRoot_iff (hstart : p.scene.start? = some start) :
    p.isRoot u ↔
      (start.uid = u ∨ p.scene.incoming u = [] ∨ p.needsLabel u) ∧
          ¬ (p.isEntry u ∧ p.comesBefore start.uid u) ∨
        p.isEntry u ∧ p.comesBefore u start.uid := by
  simp [isRoot, hstart, or_assoc, imp_iff_not_or]

/-! ## Places in the sequence -/

section

variable {before after : List Uid} {v : Uid} (hsplit : p.sequence = before ++ u :: after)

include hsplit

theorem idxOf_place (hu : u ∉ before) : p.sequence.idxOf u = before.length := by
  rw [hsplit, List.idxOf_append_of_notMem hu, List.idxOf_cons_self, Nat.add_zero]

theorem comesBefore_iff (hu : u ∉ before) : p.comesBefore v u ↔ v ∈ before := by
  rw [comesBefore, decide_eq_true_iff, idxOf_place hsplit hu, hsplit]
  by_cases hv : v ∈ before
  · rw [List.idxOf_append_of_mem hv]
    exact iff_of_true (List.idxOf_lt_length_of_mem hv) hv
  · rw [List.idxOf_append_of_notMem hv]
    exact iff_of_false (by omega) hv

theorem comesBefore_of_place_iff (hu : u ∉ before) : p.comesBefore u v ↔ v ∉ before ∧ v ≠ u := by
  rw [comesBefore, decide_eq_true_iff, idxOf_place hsplit hu, hsplit]
  by_cases hv : v ∈ before
  · rw [List.idxOf_append_of_mem hv]
    have := List.idxOf_lt_length_of_mem hv
    exact iff_of_false (by omega) (by simp [hv])
  · rw [List.idxOf_append_of_notMem hv]
    by_cases heq : v = u
    · simp [heq]
    · rw [List.idxOf_cons_ne _ (Ne.symm heq)]
      exact iff_of_true (by omega) ⟨hv, heq⟩

end

end LabelPolicy

/-! ## The turn of a bubble -/

namespace FinalPass

variable {p : LabelPolicy} {code : List Item} {emitted : List Uid} (h : FinalPass p code emitted)
  {before after : List Uid} {u : Uid} {start : Bubble} {code₁ code₂ : List Item} {g : Progress}

include h

theorem not_mem_before (hsplit : p.sequence = before ++ u :: after) : u ∉ before := by
  have hnodup := h.wellFormed.nodup_sequence
  rw [← h.sequence, hsplit] at hnodup
  exact fun hmem ↦ List.disjoint_of_nodup_append hnodup hmem List.mem_cons_self

/-- Where the links of a start and of an outlet end there is a label. -/
theorem needsLabel_of_entry (hstart : p.scene.start? = some start) (hentry : p.isEntry u)
    (hends : p.scene.EndsOutlet u) : p.needsLabel u := by
  obtain ⟨c, hc, htarget, hslot⟩ := hends
  obtain ⟨c', hlink, htarget'⟩ := (LabelPolicy.isEntry_iff hstart).mp hentry
  obtain ⟨hmem, hstart'⟩ := h.wellFormed.start?_eq_some_iff.mp hstart
  obtain ⟨hc', hslot'⟩ := h.wellFormed.link?_eq_some_iff.mp hlink
  obtain ⟨b, hb, -⟩ := h.wellFormed.exists_target hc
  refine LabelPolicy.needsLabel_of_two_incoming (htarget ▸ hb) (Scene.mem_incoming.mpr ⟨hc, htarget⟩)
    (Scene.mem_incoming.mpr ⟨hc', htarget'⟩) ?_
  rintro rfl
  obtain ⟨b', hb', houtlet⟩ := hslot
  obtain ⟨hno, hslots⟩ := Bubble.mem_outlets.mp houtlet
  have hstarts : c.slot ∈ start.slots := by simp [Bubble.slots_of_isStart hstart', hslot']
  rw [h.wellFormed.eq_of_mem_slots hb' hmem hslots hstarts, hstart'] at hno
  contradiction

/-- The start is emitted when its turn comes. -/
theorem start_mem_emitted_iff (hstart : p.scene.start? = some start)
    (hbefore : Emits p ⟨[], []⟩ (before.map (.bubble 0)) code₁ g) :
    start.uid ∈ g.emitted ↔ start.uid ∈ before := by
  obtain ⟨hmem, hstart'⟩ := h.wellFormed.start?_eq_some_iff.mp hstart
  constructor
  · intro hg
    have hno : ∀ {c}, c ∈ p.scene.connections → c.target ≠ start.uid := fun hc ↦
      h.wellFormed.target_ne_of_isStart hc hmem hstart'
    rcases hbefore.of_mem_emitted_roots hg with
      hroot | ⟨-, c, hc, htarget, -⟩ | ⟨_, -, -, -, c, hlink, htarget⟩
    · exact hroot
    · exact absurd htarget (hno hc)
    · exact absurd htarget (hno (Scene.mem_connections_of_link? hlink))
  · intro hroot
    exact hbefore.mem_emitted (List.mem_map_of_mem hroot)

/-- Where the link of a start ends that has not had its turn, only the bubbles are emitted that have. -/
theorem entry_mem_emitted_iff (hstart : p.scene.start? = some start)
    (hbefore : Emits p ⟨[], []⟩ (before.map (.bubble 0)) code₁ g) (hno : start.uid ∉ before)
    (hentry : p.isEntry u) : u ∈ g.emitted ↔ u ∈ before := by
  constructor
  · intro hg
    rcases hbefore.of_mem_emitted_roots hg with
      hroot | ⟨hlabel, hends⟩ | ⟨start', hmem', hstart', hemitted, -⟩
    · exact hroot
    · exact absurd (h.needsLabel_of_entry hstart hentry hends) hlabel
    · rw [h.wellFormed.start?_eq_some_iff.mpr ⟨hmem', hstart'⟩] at hstart
      obtain rfl := Option.some.inj hstart
      rw [h.start_mem_emitted_iff (h.wellFormed.start?_eq_some_iff.mpr ⟨hmem', hstart'⟩) hbefore]
        at hemitted
      exact absurd hemitted hno
  · intro hroot
    exact hbefore.mem_emitted (List.mem_map_of_mem hroot)

/-- A bubble that has been emitted before its turn is no root. -/
theorem not_isRoot_of_mem_emitted (hsplit : p.sequence = before ++ u :: after)
    (hbefore : Emits p ⟨[], []⟩ (before.map (.bubble 0)) code₁ g) (hu : u ∈ g.emitted) :
    ¬ p.isRoot u := by
  obtain ⟨start, hstart, hmem, hstart'⟩ := h.wellFormed.exists_start
  have hplace := h.not_mem_before hsplit
  rw [LabelPolicy.isRoot_iff hstart]
  rcases hbefore.of_mem_emitted_roots hu with
    hroot | ⟨hlabel, c, hc, htarget, hslot⟩ | ⟨start₂, hmem₂, hstart₂, hemitted, c, hlink, htarget⟩
  · exact absurd hroot hplace
  · rintro (⟨hroot | hroot | hroot, -⟩ | ⟨hentry, -⟩)
    · exact h.wellFormed.target_ne_of_isStart hc hmem hstart' (htarget.trans hroot.symm)
    · exact List.ne_nil_of_mem (Scene.mem_incoming.mpr ⟨hc, htarget⟩) hroot
    · exact hlabel hroot
    · exact hlabel (h.needsLabel_of_entry hstart hentry ⟨c, hc, htarget, hslot⟩)
  · obtain rfl := h.wellFormed.eq_of_isStart hmem hmem₂ hstart' hstart₂
    have hfirst := (h.start_mem_emitted_iff hstart hbefore).mp hemitted
    have hentry := (LabelPolicy.isEntry_iff hstart).mpr ⟨c, hlink, htarget⟩
    rintro (⟨-, hno⟩ | ⟨-, hno⟩)
    · exact hno ⟨hentry, (LabelPolicy.comesBefore_iff hsplit hplace).mpr hfirst⟩
    · exact ((LabelPolicy.comesBefore_of_place_iff hsplit hplace).mp hno).1 hfirst

theorem exists_bubble (hu : u ∈ p.sequence) : ∃ b, p.scene.bubble? u = some b ∧ b ∈ p.scene.bubbles := by
  rw [h.sequence] at hu
  obtain ⟨b, hb, rfl⟩ := Scene.mem_sequence.mp hu
  exact ⟨b, h.wellFormed.bubble?_uid hb, hb⟩

/-- Where the link of a start ends that comes before, a bubble has been emitted before its turn. -/
theorem mem_emitted_of_entry (hsplit : p.sequence = before ++ u :: after)
    (hbefore : Emits p ⟨[], []⟩ (before.map (.bubble 0)) code₁ g)
    (hstart : p.scene.start? = some start) (hentry : p.isEntry u)
    (hlate : ¬ p.comesBefore u start.uid) : u ∈ g.emitted := by
  obtain ⟨c, hlink, rfl⟩ := (LabelPolicy.isEntry_iff hstart).mp hentry
  obtain ⟨hmem, hstart'⟩ := h.wellFormed.start?_eq_some_iff.mp hstart
  have hne := h.wellFormed.target_ne_of_isStart (Scene.mem_connections_of_link? hlink) hmem hstart'
  have hfirst : start.uid ∈ before := by
    by_contra hno
    have hplace := h.not_mem_before hsplit
    exact hlate ((LabelPolicy.comesBefore_of_place_iff hsplit hplace).mpr ⟨hno, hne.symm⟩)
  have hemitted := (h.start_mem_emitted_iff hstart hbefore).mpr hfirst
  exact hbefore.start_settled (h.wellFormed.bubble?_uid hmem) hstart' hemitted (by simp) hlink

/-- Where the link of an outlet ends and there is no label, a bubble has been emitted before its turn. If
it had not, the link would be followed afterwards, and find it stranded. -/
theorem mem_emitted_of_outlet (hsplit : p.sequence = before ++ u :: after)
    (hbefore : Emits p ⟨[], []⟩ (before.map (.bubble 0)) code₁ g)
    (hafter : Emits p g ((u :: after).map (.bubble 0)) code₂ ⟨emitted, []⟩)
    (hlabel : ¬ p.needsLabel u) {source : Bubble} (hsource : source ∈ p.scene.bubbles)
    {c : Connection} (hslot : c.slot ∈ source.outlets) (hlink : p.scene.link? c.slot = some c)
    (htarget : c.target = u) : u ∈ g.emitted := by
  subst htarget
  obtain ⟨b, hb, hmem⟩ := h.exists_bubble (u := c.target) (by simp [hsplit])
  have hslot' : c.slot ∈ p.scene.outlets source.uid := by
    rwa [Scene.outlets_of_bubble? (h.wellFormed.bubble?_uid hsource)]
  rcases hafter.of_turn hb with ⟨hg, -⟩ | ⟨-, body, -, hbody⟩
  · exact hg
  · by_cases hg : source.uid ∈ g.emitted
    · exact (hbefore.settled (.inr ⟨_, hg, by simp, hslot'⟩) hlink hlabel).1
    · have hfollows : Emits.Follows p ⟨c.target :: g.emitted, g.stranded⟩
          (b.parts (p.levelOf 0 c.target) ++ after.map (.bubble 0)) ⟨emitted, []⟩ c.slot := by
        by_cases heq : source.uid = c.target
        · have huid : source.uid ∈ b.uids := by
            rw [heq, ← Scene.uid_of_bubble? hb]
            exact b.uid_mem_uids
          obtain rfl := h.wellFormed.eq_of_mem_uids hsource hmem source.uid_mem_uids huid
          refine .inl ?_
          rw [slotsOf_append, slotsOf_parts]
          exact List.mem_append_left _ hslot
        · refine .inr ⟨source.uid, h.mem_emitted_iff.mpr ⟨source, hsource, rfl⟩, ?_, hslot'⟩
          simp [heq, hg]
      have hstranded := (hbody.settled hfollows hlink hlabel).2 List.mem_cons_self
      simp at hstranded

/-- A bubble that has not been emitted when its turn comes is a root. -/
theorem isRoot_of_not_mem_emitted (hsplit : p.sequence = before ++ u :: after)
    (hbefore : Emits p ⟨[], []⟩ (before.map (.bubble 0)) code₁ g)
    (hafter : Emits p g ((u :: after).map (.bubble 0)) code₂ ⟨emitted, []⟩) (hu : u ∉ g.emitted) :
    p.isRoot u := by
  obtain ⟨start, hstart, hmem, hstart'⟩ := h.wellFormed.exists_start
  by_contra hroot
  rw [LabelPolicy.isRoot_iff hstart, not_or, not_and, not_not] at hroot
  obtain ⟨hown, hearly⟩ := hroot
  by_cases hentry : p.isEntry u
  · exact hu (h.mem_emitted_of_entry hsplit hbefore hstart hentry fun hlate ↦ hearly ⟨hentry, hlate⟩)
  · have hno : ¬ (start.uid = u ∨ p.scene.incoming u = [] ∨ p.needsLabel u) := fun hyes ↦
      hentry (hown hyes).1
    obtain ⟨-, hincoming, hlabel⟩ := (not_or.mp hno).imp id not_or.mp
    obtain ⟨c, hin⟩ := List.exists_mem_of_ne_nil _ hincoming
    obtain ⟨hc, htarget⟩ := Scene.mem_incoming.mp hin
    obtain ⟨source, hsource, hslot⟩ := h.wellFormed.exists_source hc
    have hlink := h.wellFormed.link?_eq_some_iff.mpr ⟨hc, rfl⟩
    have houtlet : c.slot ∈ source.outlets := by
      refine Bubble.mem_outlets.mpr ⟨Bool.eq_false_iff.mpr fun hyes ↦ hentry ?_, hslot⟩
      obtain rfl := h.wellFormed.eq_of_isStart hsource hmem hyes hstart'
      rw [Bubble.slots_of_isStart hyes, List.mem_singleton] at hslot
      exact (LabelPolicy.isEntry_iff hstart).mpr ⟨c, hslot ▸ hlink, htarget⟩
    exact hu (h.mem_emitted_of_outlet hsplit hbefore hafter hlabel hsource houtlet hlink htarget)

/-! ## The trees along the sequence -/

/-- The link of the start is followed exactly if its target comes later. -/
theorem draws_entry {b : Bubble} (hsplit : p.sequence = before ++ b.uid :: after)
    (hmem : b ∈ p.scene.bubbles) (hstart : b.isStart)
    (hbefore : Emits p ⟨[], []⟩ (before.map (.bubble 0)) code₁ g) {g₂ : Progress} {level : Nat}
    (hentry : Emits p ⟨b.uid :: g.emitted, g.stranded⟩ [.entry ⟨b.uid, .next⟩ level] code₂ g₂)
    (hstranded : g₂.stranded = []) : Draws p [.entry ⟨b.uid, .next⟩ level] code₂ := by
  have hplace := h.not_mem_before hsplit
  have hstart' := h.wellFormed.start?_eq_some_iff.mpr ⟨hmem, hstart⟩
  cases hentry with
  | step first rest =>
      cases first with
      | entryFinish hlink =>
          cases rest
          exact .cons_of_draw (fun _ ↦ by simp [LabelPolicy.draw, hlink]) (.nil p)
      | @entry _ _ c hlink =>
          have hentry := (LabelPolicy.isEntry_iff hstart').mpr ⟨c, hlink, rfl⟩
          have hemitted := h.entry_mem_emitted_iff hstart' hbefore hplace hentry
          have hlater := LabelPolicy.comesBefore_of_place_iff hsplit hplace (v := c.target)
          obtain ⟨b', hb', hmem', hno⟩ := h.wellFormed.exists_target_of_link? hlink
          have hc := Scene.mem_connections_of_link? hlink
          have hne := h.wellFormed.target_ne_of_isStart hc hmem hstart
          by_cases hg : c.target ∈ g.emitted
          · have hearly : p.comesBefore b.uid c.target = false := by
              simp [← Bool.not_eq_true, hlater, hemitted.mp hg]
            obtain ⟨-, hrest⟩ | ⟨hnew, -⟩ := rest.of_turn hb'
            · cases hrest
              exact .cons_of_draw (fun _ ↦ by simp [LabelPolicy.draw, hlink, hearly]) (.nil p)
            · exact absurd (List.mem_cons_of_mem _ hg) hnew
          · have hlate : p.comesBefore b.uid c.target = true :=
              hlater.mpr ⟨fun hfirst ↦ hg (hemitted.mpr hfirst), hne⟩
            have hnew : c.target ∉ b.uid :: g.emitted := by simp [hne, hg]
            have htarget := rest.draws h.wellFormed hstranded ⟨⟨hnew, b', hb', hno⟩, by simp⟩
            exact htarget.of_draw_eq fun _ ↦ by simp [LabelPolicy.draw, hlink, hlate]

/-- A bubble that has not been emitted when its turn comes writes its tree. -/
theorem draws_turn (hsplit : p.sequence = before ++ u :: after)
    (hbefore : Emits p ⟨[], []⟩ (before.map (.bubble 0)) code₁ g) {g₂ : Progress}
    (hturn : Emits p g [.bubble 0 u] code₂ g₂) (hstranded : g₂.stranded = []) (hu : u ∉ g.emitted) :
    Draws p [.bubble 0 u] code₂ := by
  obtain ⟨b, hb, hmem⟩ := h.exists_bubble (u := u) (by simp [hsplit])
  cases hstart : b.isStart with
  | false => exact hturn.draws h.wellFormed hstranded ⟨⟨hu, b, hb, hstart⟩, by simp⟩
  | true =>
      obtain rfl := Scene.uid_of_bubble? hb
      obtain ⟨hg, -⟩ | ⟨-, body, rfl, hbody⟩ := hturn.of_turn hb
      · exact absurd hg hu
      · apply Draws.bubble hb
        rw [Bubble.parts_of_isStart hstart] at hbody ⊢
        exact h.draws_entry hsplit hmem hstart hbefore hbody hstranded

/-- From any place in the sequence, a pass writes the trees of the roots to come. -/
theorem draws_roots (hsplit : p.sequence = before ++ after)
    (hbefore : Emits p ⟨[], []⟩ (before.map (.bubble 0)) code₁ g)
    (hafter : Emits p g (after.map (.bubble 0)) code₂ ⟨emitted, []⟩) :
    Draws p ((after.filter p.isRoot).map (.bubble 0)) code₂ := by
  induction after generalizing before code₁ g code₂ with
  | nil =>
      cases hafter
      exact .nil p
  | cons u after ih =>
      obtain ⟨items, g₂, others, rfl, hturn, hothers⟩ := hafter.split [.bubble 0 u]
      have hstranded := hothers.stranded_eq_nil rfl
      have hsplit' : p.sequence = (before ++ [u]) ++ after := by simp [hsplit]
      have hbefore' : Emits p ⟨[], []⟩ ((before ++ [u]).map (.bubble 0)) (code₁ ++ items) g₂ := by
        rw [List.map_append]
        exact hbefore.append hturn
      have hnext := ih hsplit' hbefore' hothers
      by_cases hu : u ∈ g.emitted
      · obtain ⟨b, hb, -⟩ := h.exists_bubble (u := u) (by simp [hsplit])
        rw [List.filter_cons_of_neg (h.not_isRoot_of_mem_emitted hsplit hbefore hu)]
        obtain ⟨-, hnil⟩ | ⟨hnew, -⟩ := hturn.of_turn hb
        · cases hnil
          exact hnext
        · exact absurd hu hnew
      · rw [List.filter_cons_of_pos (h.isRoot_of_not_mem_emitted hsplit hbefore hafter hu)]
        exact (h.draws_turn hsplit hbefore hturn hstranded hu).append hnext

end FinalPass

/-- The script of a well-formed scene is what its roots draw, along the sequence and without any record
of what has been emitted. The code of every bubble begins there once. -/
theorem Scene.forest_of_emit {s : Scene} (hs : s.WellFormed) {limit : Nat} {code : List Item}
    {p : LabelPolicy} (h : s.emit s.sequence limit = .ok (code, p)) :
    p.scene = s ∧ p.sequence = s.sequence ∧
      (∃ room, ∀ room' ≥ room, p.forest? room' = some code) ∧
      (code.filterMap Item.mark?).Perm (s.bubbles.map (·.uid)) := by
  obtain ⟨rfl, emitted, hpass⟩ := s.exists_finalPass hs h
  have hdraws := hpass.draws_roots (List.nil_append _).symm (.done _) hpass.emits
  exact ⟨rfl, hpass.sequence, hdraws.exists_room, hpass.marks_perm⟩

theorem Scene.forest_turningBack :
    turningBack.WellFormed ∧ ∃ code p, turningBack.emit turningBack.sequence 3 = .ok (code, p) ∧
      ∃ room, ∀ room' ≥ room, p.forest? room' = some code := by
  obtain ⟨code, p, h⟩ := exists_emit_turningBack
  obtain ⟨-, -, hforest, -⟩ := forest_of_emit wellFormed_turningBack h
  exact ⟨wellFormed_turningBack, code, p, h, hforest⟩

end StoryGraph
