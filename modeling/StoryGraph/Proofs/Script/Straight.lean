import StoryGraph.Proofs.Script.Forest
import StoryGraph.Proofs.Script.Unfold

/-!
# Straight ways need no jumps

Where one link only leads to a bubble, and the bubble that it leaves comes first in the sequence, the link
is followed before the bubble has its turn. So the bubble is not found stranded, in no pass, and has no
label if nothing else calls for one. Along straight ways from the start nothing does, and what can be
reached is written out in one piece, whatever else the scene holds.
-/

namespace StoryGraph

/-! ## A bubble that waits for a link -/

/-- Whether a bubble among parts has its turn only after another one, and after a slot that the other one
has. `seen` says whether the other one has had its turn. -/
def InTurn (other u : Uid) (slot : Slot) : Prop → List Part → Prop
  | _, [] => True
  | seen, .bubble _ v :: parts =>
      (v = u → seen ∧ slot ∉ slotsOf parts) ∧ InTurn other u slot (seen ∨ v = other) parts
  | seen, _ :: parts => InTurn other u slot seen parts

section

variable {other u : Uid} {slot : Slot} {seen seen' : Prop} {parts : List Part}

theorem InTurn.mono (hseen : seen → seen') (h : InTurn other u slot seen parts) :
    InTurn other u slot seen' parts := by
  induction parts generalizing seen seen' with
  | nil => trivial
  | cons part parts ih =>
      cases part with
      | bubble level v => exact ⟨fun hv ↦ (h.1 hv).imp_left hseen, ih (Or.imp_left hseen) h.2⟩
      | _ => exact ih hseen h

/-- The parts of a bubble have no turn of another. -/
theorem inTurn_parts_append (b : Bubble) (level : Nat) :
    InTurn other u slot seen (b.parts level ++ parts) ↔ InTurn other u slot seen parts := by
  have hparts : ∀ part ∈ b.parts level, part.IsOf b level := fun _ ↦ isOf_of_mem_parts
  generalize b.parts level = front at hparts ⊢
  induction front with
  | nil => rfl
  | cons part front ih =>
      obtain ⟨hpart, hfront⟩ := List.forall_mem_cons.mp hparts
      cases part with
      | bubble => exact absurd hpart id
      | _ => exact ih hfront

/-- Along a list where the other one comes first, a bubble has its turn after it. -/
theorem inTurn_roots {us : List Uid}
    (h : ∀ before after, us = before ++ u :: after → seen ∨ other ∈ before) :
    InTurn other u slot seen (us.map (.bubble 0)) := by
  induction us generalizing seen with
  | nil => trivial
  | cons v us ih =>
      refine ⟨?_, ih ?_⟩
      · rintro rfl
        have hseen := (h [] us rfl).resolve_right List.not_mem_nil
        exact ⟨hseen, by simp⟩
      · rintro before after rfl
        rcases h (v :: before) after rfl with hseen | hmem
        · exact .inl (.inl hseen)
        · rcases List.mem_cons.mp hmem with rfl | hmem
          · exact .inl (.inr rfl)
          · exact .inr hmem

end

/-! ## Slots that are pending -/

theorem slotsOf_sublist_cons (part : Part) (parts : List Part) :
    (slotsOf parts).Sublist (slotsOf (part :: parts)) :=
  (List.sublist_cons_self part parts).filterMap _

/-- `p.Pending g parts`: the slots among the parts to come are outlets of bubbles that have been emitted,
and none is there twice. -/
structure LabelPolicy.Pending (p : LabelPolicy) (g : Progress) (parts : List Part) : Prop where
  nodup : (slotsOf parts).Nodup
  owners : ∀ slot ∈ slotsOf parts, ∃ u ∈ g.emitted, slot ∈ p.scene.outlets u

theorem Scene.WellFormed.eq_of_mem_outlets {s : Scene} (h : s.WellFormed) {u : Uid} {b : Bubble}
    (hb : b ∈ s.bubbles) {slot : Slot} (hslot : slot ∈ b.outlets) (hu : slot ∈ s.outlets u) :
    u = b.uid := by
  unfold outlets at hu
  split at hu
  · simp at hu
  · rename_i b' hb'
    obtain rfl := h.eq_of_mem_slots hb (mem_of_bubble? hb') (Bubble.mem_outlets.mp hslot).2
      (Bubble.mem_outlets.mp hu).2
    exact (uid_of_bubble? hb').symm

section

variable {p : LabelPolicy} {g g₁ : Progress} {part : Part} {front parts : List Part} {items : List Item}

theorem Step.pending (hs : p.scene.WellFormed) (h : Step p g part items g₁ front)
    (hp : p.Pending g (part :: parts)) : p.Pending g₁ (front ++ parts) := by
  have hsub := slotsOf_sublist_cons part parts
  have hold : ∀ slot ∈ slotsOf parts, ∃ u ∈ g.emitted, slot ∈ p.scene.outlets u :=
    fun slot hslot ↦ hp.owners slot (hsub.mem hslot)
  have hkept : ∀ slot ∈ slotsOf parts, ∃ u ∈ g₁.emitted, slot ∈ p.scene.outlets u := by
    intro slot hslot
    obtain ⟨u, hu, houtlet⟩ := hold slot hslot
    exact ⟨u, h.emitted_suffix.mem hu, houtlet⟩
  have hnodup := hp.nodup.sublist hsub
  cases h with
  | @take level u b hnew hbubble =>
      have hmem := Scene.mem_of_bubble? hbubble
      constructor
      · rw [slotsOf_append, slotsOf_parts]
        refine List.nodup_append.mpr ⟨Bubble.nodup_outlets (hs.nodup_uids_of_mem hmem), hnodup, ?_⟩
        rintro slot hslot slot' hslot' rfl
        obtain ⟨v, hv, houtlet⟩ := hold slot hslot'
        rw [hs.eq_of_mem_outlets hmem hslot houtlet, Scene.uid_of_bubble? hbubble] at hv
        exact hnew hv
      · intro slot hslot
        rw [slotsOf_append, slotsOf_parts] at hslot
        rcases List.mem_append.mp hslot with hslot | hslot
        · exact ⟨u, List.mem_cons_self, by rwa [Scene.outlets_of_bubble? hbubble]⟩
        · exact hkept slot hslot
  | _ => exact ⟨hnodup, hkept⟩

end

/-! ## A link that is followed in time -/

/-- `p.Awaits b c g parts`: a pass has come to `g` with `parts` to come, and where the link `c` of the
bubble `b` ends, nothing has been emitted before the link was followed. -/
structure LabelPolicy.Awaits (p : LabelPolicy) (b : Bubble) (c : Connection) (g : Progress)
    (parts : List Part) : Prop where
  entered : Entered p.scene g.emitted parts
  pending : p.Pending g parts
  inTurn : InTurn b.uid c.target c.slot (b.uid ∈ g.emitted) parts
  emitted : c.target ∈ g.emitted → b.uid ∈ g.emitted ∧ c.slot ∉ slotsOf parts

section

variable {p : LabelPolicy} {g g₁ g' : Progress} {part : Part} {front parts : List Part}
  {items code : List Item} {b : Bubble} {c : Connection} (hs : p.scene.WellFormed)
  (hjoin : p.scene.Joinless) (hb : b ∈ p.scene.bubbles) (hstart : b.isStart = false)
  (hc : c ∈ p.scene.links b.uid) (hne : c.target ≠ b.uid)

include hs hb

/-- Slots of a bubble come to be pending with its turn only. -/
theorem Step.turn_of_mem_front (h : Step p g part items g₁ front) {slot : Slot} (houtlet : slot ∈ b.outlets)
    (hfront : slot ∈ slotsOf front) : b.uid ∉ g.emitted ∧ ∃ level, part = .bubble level b.uid := by
  obtain ⟨level, u, rfl, hown⟩ := h.mem_outlets_of_front hfront
  obtain rfl := hs.eq_of_mem_outlets hb houtlet hown
  refine ⟨fun hemitted ↦ ?_, level, rfl⟩
  cases h with
  | skip => simp [slotsOf] at hfront
  | unknown hnew | take hnew => exact hnew hemitted

/-- Where the target has been emitted, the link has been followed before. -/
theorem Step.followed (houtlet : c.slot ∈ b.outlets) (hne : c.target ≠ b.uid)
    (h : Step p g part items g₁ front) (hw : p.Awaits b c g (part :: parts)) (hmem : c.target ∈ g₁.emitted) :
    b.uid ∈ g₁.emitted ∧ c.slot ∉ slotsOf (front ++ parts) := by
  rw [slotsOf_append, List.mem_append, not_or]
  -- either the target had been emitted before, or this is its turn
  by_cases hold : c.target ∈ g.emitted
  · obtain ⟨hseen, hgone⟩ := hw.emitted hold
    exact ⟨h.emitted_suffix.mem hseen, fun hslot ↦ (h.turn_of_mem_front hs hb houtlet hslot).1 hseen,
      fun hslot ↦ hgone ((slotsOf_sublist_cons part parts).mem hslot)⟩
  · obtain heq | ⟨level, u, rfl, -, heq⟩ := h.emitted_eq
    · exact absurd (heq ▸ hmem) hold
    · obtain rfl := (List.mem_cons.mp (heq ▸ hmem)).resolve_right hold
      obtain ⟨hseen, hgone⟩ := hw.inTurn.1 rfl
      refine ⟨h.emitted_suffix.mem hseen, fun hslot ↦ ?_, hgone⟩
      obtain ⟨-, l, hpart⟩ := h.turn_of_mem_front hs hb houtlet hslot
      exact hne (Part.bubble.inj hpart).2

include hjoin hstart hc

/-- The target keeps its turn after the link: what is inlined is inlined by the one link to it. -/
theorem Step.inTurn (h : Step p g part items g₁ front) (hw : p.Awaits b c g (part :: parts)) :
    InTurn b.uid c.target c.slot (b.uid ∈ g₁.emitted) (front ++ parts) := by
  obtain ⟨hcmem, hslot⟩ := (hs.mem_links_iff hb).mp hc
  -- a link to the same target is the same link
  have hsame : ∀ {place d}, p.scene.link? place = some d → d.target = c.target → place = c.slot := by
    intro place d hlink htarget
    obtain ⟨hd, rfl⟩ := hs.link?_eq_some_iff.mp hlink
    rw [hjoin.eq_of_target_eq hs hd hcmem htarget]
  have hseen : ∀ {v : Uid}, b.uid ∈ g.emitted ∨ v = b.uid → b.uid ∈ v :: g.emitted := by
    rintro v (hmem | rfl)
    · exact List.mem_cons_of_mem _ hmem
    · exact List.mem_cons_self
  have hturn := hw.inTurn
  cases h with
  | @inline place level d hlink _ _ =>
      refine ⟨fun htarget ↦ ?_, hturn.mono .inl⟩
      obtain rfl := hsame hlink htarget
      obtain ⟨v, hv, hown⟩ := hw.pending.owners c.slot List.mem_cons_self
      rw [hs.eq_of_mem_outlets hb (Bubble.mem_outlets.mpr ⟨hstart, hslot⟩) hown] at hv
      exact ⟨hv, (List.nodup_cons.mp hw.pending.nodup).1⟩
  | @entry place level d hlink =>
      refine ⟨fun htarget ↦ ?_, hturn.mono .inl⟩
      obtain rfl := hsame hlink htarget
      obtain ⟨start, hmem, hisStart, -, heq⟩ := hw.entered _ _ List.mem_cons_self
      have hstarts : c.slot ∈ start.slots := by simp [Bubble.slots_of_isStart hisStart, heq]
      rw [hs.eq_of_mem_slots hb hmem hslot hstarts, hisStart] at hstart
      contradiction
  | skip hmem => exact hturn.2.mono fun hseen ↦ hseen.elim id fun heq ↦ heq ▸ hmem
  | unknown => exact hturn.2.mono hseen
  | take =>
      rw [inTurn_parts_append]
      exact hturn.2.mono hseen
  | _ => exact hturn

include hne

theorem Step.awaits (h : Step p g part items g₁ front) (hw : p.Awaits b c g (part :: parts)) :
    p.Awaits b c g₁ (front ++ parts) := by
  have houtlet : c.slot ∈ b.outlets :=
    Bubble.mem_outlets.mpr ⟨hstart, ((hs.mem_links_iff hb).mp hc).2⟩
  have hentered : Entered p.scene g₁.emitted (part :: parts) := by
    intro place level hentry
    obtain ⟨start, hmem, hisStart, hemitted, rfl⟩ := hw.entered place level hentry
    exact ⟨start, hmem, hisStart, h.emitted_suffix.mem hemitted, rfl⟩
  exact ⟨h.entered hentered fun _ ↦ id, h.pending hs hw.pending, h.inTurn hs hjoin hb hstart hc hw,
    h.followed hs hb houtlet hne hw⟩

/-- Where a link ends that is followed in time, nothing is found stranded. -/
theorem Emits.not_stranded (h : Emits p g parts code g') (hw : p.Awaits b c g parts)
    (hu : c.target ∈ g'.stranded) : c.target ∈ g.stranded := by
  induction h with
  | done g => exact hu
  | @step g g₁ g' part front parts items code first rest ih =>
      have hnext := ih (first.awaits hs hjoin hb hstart hc hne hw) hu
      cases first with
      | @strand place level d hlink _ hmem =>
          rcases List.mem_cons.mp hnext with heq | hnext
          · obtain ⟨hcmem, -⟩ := (hs.mem_links_iff hb).mp hc
            obtain ⟨hd, rfl⟩ := hs.link?_eq_some_iff.mp hlink
            obtain rfl := hjoin.eq_of_target_eq hs hd hcmem heq.symm
            -- the slot of the link would be there a second time
            exact absurd List.mem_cons_self (hw.emitted hmem).2
          · exact hnext
      | _ => exact hnext

end

/-! ## Bubbles that come first in the sequence -/

namespace Labelling

theorem lastPosition?_of_not_mem {u : Uid} {us : List Uid} (hu : u ∉ us) : lastPosition? u us = none := by
  induction us with
  | nil => rfl
  | cons v us ih =>
      obtain ⟨hne, hu⟩ := not_or.mp (mt List.mem_cons.mpr hu)
      rw [lastPosition?, ih hu]
      exact if_neg (Ne.symm hne)

theorem lastPosition?_append_of_not_mem {u : Uid} {us vs : List Uid} (hu : u ∉ vs) :
    lastPosition? u (us ++ vs) = lastPosition? u us := by
  induction us with
  | nil => exact lastPosition?_of_not_mem hu
  | cons v us ih => rw [List.cons_append, lastPosition?, lastPosition?, ih]

theorem lastPosition?_lt {u : Uid} {us : List Uid} {i : Nat} (h : lastPosition? u us = some i) :
    i < us.length := by
  induction us generalizing i with
  | nil => cases h
  | cons v us ih =>
      rw [lastPosition?] at h
      split at h
      · rename_i j hj
        obtain rfl := Option.some.inj h
        exact Nat.succ_lt_succ (ih hj)
      · split at h
        · obtain rfl := Option.some.inj h
          exact Nat.succ_pos _
        · cases h

theorem lastPosition?_append_cons {u : Uid} {us vs : List Uid} (hu : u ∉ vs) :
    lastPosition? u (us ++ u :: vs) = some us.length := by
  induction us with
  | nil => simp [lastPosition?, lastPosition?_of_not_mem hu]
  | cons v us ih => simp [lastPosition?, ih]

/-- A bubble that comes first is not far after another. -/
theorem isFarAfter_of_split {l : Labelling} (hnodup : l.sequence.Nodup) {u v : Uid}
    {before after : List Uid} (hsplit : l.sequence = before ++ v :: after) (hu : u ∈ before) :
    l.isFarAfter u v = false := by
  rw [hsplit] at hnodup
  have hrest : u ∉ v :: after := fun hmem ↦ List.disjoint_of_nodup_append hnodup hu hmem
  have hlast : v ∉ after := (List.nodup_cons.mp (List.nodup_append.mp hnodup).2.1).1
  unfold isFarAfter
  rw [hsplit, lastPosition?_append_cons hlast, lastPosition?_append_of_not_mem hrest]
  cases hplace : lastPosition? u before with
  | none => rfl
  | some i =>
      have hlt := lastPosition?_lt hplace
      simp only [decide_eq_false_iff_not]
      omega

end Labelling

/-! ## Along straight ways -/

namespace Scene.Straight

variable {p : LabelPolicy} (h : p.scene.Straight) (hsequence : p.sequence = p.scene.sequence)

include h hsequence

/-- Nothing is found stranded that can be reached. -/
theorem not_stranded {limit : Nat} {code : List Item} {progress : Progress}
    (hpass : p.pass limit = .ok (code, progress)) {u : Uid} (hu : u ∈ progress.stranded) :
    u ∉ p.scene.reachable := by
  intro hreach
  have hs := h.wellFormed
  obtain ⟨c, hcmem, rfl, b, hb, houtlet⟩ := LabelPolicy.endsOutlet_of_pass hpass hu
  obtain ⟨hstart, hslot⟩ := Bubble.mem_outlets.mp houtlet
  have hc := (hs.mem_links_iff hb).mpr ⟨hcmem, hslot⟩
  have hfrom := h.joinless.mem_reachable_of_target hs hb hc hreach
  have hne := h.target_ne hb hfrom hc
  have hroots : p.Awaits b c ⟨[], []⟩ (p.sequence.map (.bubble 0)) := by
    refine ⟨by simp [Entered], ⟨by simp, by simp⟩, inTurn_roots ?_, by simp⟩
    intro before after hsplit
    exact .inr (h.mem_before b hb hfrom c hc before after (hsequence ▸ hsplit))
  have hnone := (LabelPolicy.emits_of_pass hpass).not_stranded hs h.joinless hb hstart hc hne hroots hu
  simp at hnone

/-- Nothing needs a label that can be reached and is not forced to have one. -/
theorem not_needsLabel (hforced : ∀ u ∈ p.forced, u ∉ p.scene.reachable) {u : Uid}
    (hreach : u ∈ p.scene.reachable) : p.needsLabel u = false := by
  have hs := h.wellFormed
  obtain ⟨b, hmem, rfl⟩ := hs.exists_bubble_of_mem_reachable hreach
  have hb := hs.bubble?_uid hmem
  have hone := h.joinless b hmem
  have hfar : ∀ c, (p.scene.incoming b.uid).head? = some c → p.comesFromFar c = false := by
    intro c hhead
    obtain ⟨hc, htarget⟩ := mem_incoming.mp (List.mem_of_mem_head? hhead)
    obtain ⟨b', hb', hlink⟩ := hs.exists_mem_links hc
    have hfrom := h.joinless.mem_reachable_of_target hs hb' hlink (htarget ▸ hreach)
    have hplace : b.uid ∈ p.sequence := by
      rw [hsequence]
      exact mem_sequence.mpr ⟨b, hmem, rfl⟩
    obtain ⟨before, after, hsplit⟩ := List.append_of_mem hplace
    have hbefore := h.mem_before b' hb' hfrom c hlink before after (htarget ▸ hsequence ▸ hsplit)
    have hnodup : p.sequence.Nodup := hsequence ▸ hs.nodup_sequence
    simp [Labelling.comesFromFar, hs.container?_of_mem_links hb' hlink, htarget,
      Labelling.isFarAfter_of_split hnodup hsplit hbefore]
  have hnone : (p.scene.incoming b.uid).head?.any p.comesFromFar = false := by
    cases hhead : (p.scene.incoming b.uid).head? with
    | none => rfl
    | some c => exact hfar c hhead
  have hlocked := h.unlocked b hmem hreach
  have hfree : b.uid ∉ p.forced := fun hmem ↦ hforced b.uid hmem hreach
  simp [Labelling.needsLabel, hb, hone, hlocked, hfree, hnone]

end Scene.Straight

/-! ## What can be reached stands in one piece -/

/-- `s.SetsApart start before block after`: in a script of these three pieces, what can be reached from
the start is written out in `block`, without labels and jumps. No other piece has anything of it. -/
structure Scene.SetsApart (s : Scene) (start : Bubble) (before block after : List Item) : Prop where
  unfolds : s.Unfolds [.bubble 0 start.uid] block
  labels : labelNames block = []
  jumps : gotoNames block = []
  /-- The bubbles whose code begins in the block are those that can be reached. -/
  enter_mem_iff : ∀ u, .enter u ∈ block ↔ u ∈ s.reachable
  nodup : (block.filterMap Item.mark?).Nodup
  elsewhere : ∀ u ∈ s.reachable, .enter u ∉ before ∧ .enter u ∉ after

theorem Item.mem_marks {u : Uid} {code : List Item} :
    u ∈ code.filterMap Item.mark? ↔ .enter u ∈ code := by
  rw [List.mem_filterMap]
  constructor
  · rintro ⟨i, hi, hmark⟩
    cases i with
    | enter v =>
        obtain rfl := Option.some.inj hmark
        exact hi
    | blank | line => cases hmark
  · exact fun hu ↦ ⟨_, hu, rfl⟩

namespace FinalPass

variable {p : LabelPolicy} {code : List Item} {emitted : List Uid} (h : FinalPass p code emitted)
  (hp : p.scene.Straight) {start : Bubble} (hstart : p.scene.start? = some start)

include h hp

theorem comesBefore_of_link {b : Bubble} (hb : b ∈ p.scene.bubbles) (hreach : b.uid ∈ p.scene.reachable)
    {c : Connection} (hc : c ∈ p.scene.links b.uid) : p.comesBefore b.uid c.target := by
  obtain ⟨t, ht, hmem, -⟩ := hp.wellFormed.exists_target (Scene.mem_connections_of_mem_links hc)
  have hplace : c.target ∈ p.sequence := by
    rw [h.sequence]
    exact Scene.mem_sequence.mpr ⟨t, hmem, Scene.uid_of_bubble? ht⟩
  obtain ⟨before, after, hsplit⟩ := List.append_of_mem hplace
  rw [LabelPolicy.comesBefore_iff hsplit (h.not_mem_before hsplit)]
  exact hp.mem_before b hb hreach c hc before after (h.sequence ▸ hsplit)

include hstart

/-- Where no bubble that can be reached has a label, these bubbles are written out in one piece. -/
theorem exists_block (hlabel : ∀ u ∈ p.scene.reachable, p.needsLabel u = false) :
    ∃ before block after, code = before ++ block ++ after ∧
      p.scene.SetsApart start before block after := by
  obtain ⟨hmem, -⟩ := hp.wellFormed.start?_eq_some_iff.mp hstart
  have hplace : start.uid ∈ p.sequence := by
    rw [h.sequence]
    exact Scene.mem_sequence.mpr ⟨start, hmem, rfl⟩
  obtain ⟨before, after, hsplit⟩ := List.append_of_mem hplace
  have hemits := h.emits
  rw [hsplit, List.map_append] at hemits
  obtain ⟨code₁, g₁, _, rfl, hbefore, hrest⟩ := hemits.split _
  obtain ⟨block, g₂, code₂, rfl, hturn, hafter⟩ := hrest.split [.bubble 0 start.uid]
  have hnew : start.uid ∉ g₁.emitted :=
    mt (h.start_mem_emitted_iff hstart hbefore).mp (h.not_mem_before hsplit)
  have hdraws := h.draws_turn hsplit hbefore hturn (hafter.stranded_eq_nil rfl) hnew
  have hunfolds := hdraws.unfolds hp.wellFormed hstart (fun u hu ↦ by simp [hlabel u hu])
    fun b hb hreach c hc ↦ h.comesBefore_of_link hp hb hreach hc
  obtain ⟨hlabels, hjumps⟩ := hunfolds.names_eq_nil hp.wellFormed hstart
  have henter := fun u ↦ hunfolds.enter_mem_iff hp.wellFormed hstart (u := u)
  have hnodup : ((code₁ ++ (block ++ code₂)).filterMap Item.mark?).Nodup :=
    h.marks_perm.nodup_iff.mpr hp.wellFormed.nodup_bubbleUids
  rw [List.filterMap_append, List.filterMap_append] at hnodup
  obtain ⟨-, hnodup', hdisjoint⟩ := List.nodup_append'.mp hnodup
  obtain ⟨hblock, -, hdisjoint'⟩ := List.nodup_append'.mp hnodup'
  refine ⟨code₁, block, code₂, (List.append_assoc ..).symm,
    ⟨hunfolds, hlabels, hjumps, henter, hblock, ?_⟩⟩
  intro u hu
  have hmark := Item.mem_marks.mpr ((henter u).mpr hu)
  exact ⟨fun hfirst ↦ hdisjoint (Item.mem_marks.mpr hfirst) (List.mem_append_left _ hmark),
    fun hlast ↦ hdisjoint' hmark (Item.mem_marks.mpr hlast)⟩

end FinalPass

/-- A well-formed scene in which no connections join compiles without jumps, as far as bubbles can be
reached and are not locked: none of them needs a label, and they are written out in one piece, each right
behind the link that leads to it. The rest of the scene does not matter. -/
theorem Scene.Joinless.exists_block_of_emit {s s' : Scene} (hs : s.WellFormed) (hjoin : s.Joinless)
    (hlocked : ∀ b ∈ s.bubbles, b.uid ∈ s.reachable → b.locked = false) {count : Nat}
    (horder : s.computeOrder = .ok (count, s')) {limit : Nat} {code : List Item} {p : LabelPolicy}
    (hemit : s'.emit s'.sequence limit = .ok (code, p)) :
    s'.reachable = s.reachable ∧ (∀ u ∈ s.reachable, p.needsLabel u = false) ∧
      ∃ start before block after, s'.start? = some start ∧ code = before ++ block ++ after ∧
        s'.SetsApart start before block after := by
  obtain ⟨hstraight, hreachable⟩ := hjoin.straight_of_computeOrder hs hlocked horder
  obtain ⟨start, hstart, -⟩ := hstraight.wellFormed.exists_start
  obtain ⟨-, hsequence, hforced, -⟩ := LabelPolicy.exists_last_pass_of (P := (· ∉ s'.reachable))
    (fun r hscene hsequence _ _ _ hpass u hu ↦ by
      subst hscene
      exact hstraight.not_stranded hsequence hpass hu)
    (by simp [LabelPolicy.create, LabelPolicy.ofLabelling]) hemit
  obtain ⟨rfl, emitted, hpass⟩ := s'.exists_finalPass hstraight.wellFormed hemit
  have hlabel : ∀ u ∈ p.scene.reachable, p.needsLabel u = false :=
    fun u hu ↦ hstraight.not_needsLabel hsequence hforced hu
  obtain ⟨before, block, after, hcode, hblock⟩ := hpass.exists_block hstraight hstart hlabel
  exact ⟨hreachable, hreachable ▸ hlabel, start, before, block, after, hstart, hcode, hblock⟩

/-- A choice of two ways, the second of which forks, and a circle of two stories that nothing leads to. The
orders are old ones. The circle has a locked story and comes in between. -/
def Scene.grove : Scene where
  name := "grove"
  bubbles :=
    [⟨⟨5⟩, "", 9, false, .start⟩, ⟨⟨4⟩, "", 0, false, .choice [⟨⟨10⟩, "left"⟩, ⟨⟨11⟩, "right"⟩]⟩,
      ⟨⟨3⟩, "glade", 0, false, .story "light"⟩, ⟨⟨2⟩, "", -7, false, .condition "lamp"⟩,
      ⟨⟨1⟩, "", 0, false, .story "cave"⟩, ⟨⟨6⟩, "", 1, true, .story "round"⟩,
      ⟨⟨7⟩, "", 1, false, .story "and round"⟩]
  connections :=
    [⟨⟨0⟩, ⟨⟨2⟩, .whenTrue⟩, ⟨1⟩, .south, .north⟩, ⟨⟨1⟩, ⟨⟨11⟩, .next⟩, ⟨2⟩, .south, .north⟩,
      ⟨⟨2⟩, ⟨⟨10⟩, .next⟩, ⟨3⟩, .south, .north⟩, ⟨⟨3⟩, ⟨⟨5⟩, .next⟩, ⟨4⟩, .south, .north⟩,
      ⟨⟨4⟩, ⟨⟨6⟩, .next⟩, ⟨7⟩, .south, .north⟩, ⟨⟨5⟩, ⟨⟨7⟩, .next⟩, ⟨6⟩, .south, .north⟩]

/-- The grove in order. -/
def Scene.groveInOrder : Scene :=
  grove.withOrders [(⟨5⟩, 0), (⟨4⟩, 0), (⟨3⟩, 1), (⟨2⟩, 1), (⟨1⟩, 2)]

theorem Scene.sequence_groveInOrder : groveInOrder.sequence = [⟨5⟩, ⟨4⟩, ⟨2⟩, ⟨3⟩, ⟨6⟩, ⟨7⟩, ⟨1⟩] := by
  have hperm : (([⟨5⟩, ⟨4⟩, ⟨2⟩, ⟨3⟩, ⟨6⟩, ⟨7⟩, ⟨1⟩] : List Uid).filterMap groveInOrder.bubble?).Perm
    groveInOrder.bubbles := by decide
  exact WellFormed.sequence_eq_map (by decide) hperm (by decide)

theorem Scene.exists_block_grove :
    grove.WellFormed ∧ grove.Joinless ∧
      (∀ b ∈ grove.bubbles, b.uid ∈ grove.reachable → b.locked = false) ∧
      ∃ count s' code p, grove.computeOrder = .ok (count, s') ∧
        s'.emit s'.sequence 3 = .ok (code, p) ∧
        s'.reachable = grove.reachable ∧ (∀ u ∈ grove.reachable, p.needsLabel u = false) ∧
        ∃ start before block after, s'.start? = some start ∧ code = before ++ block ++ after ∧
          s'.SetsApart start before block after := by
  have hs : grove.WellFormed := by decide
  have hjoin : grove.Joinless := by decide
  have hreach : grove.reachable = [⟨5⟩, ⟨4⟩, ⟨3⟩, ⟨2⟩, ⟨1⟩] := by cbv
  have hlocked : ∀ b ∈ grove.bubbles, b.uid ∈ grove.reachable → b.locked = false := by
    rw [hreach]
    decide
  have horder : grove.computeOrder = .ok (4, groveInOrder) := by cbv
  have hcompiles : (groveInOrder.emit groveInOrder.sequence 3).map (fun _ ↦ ()) = .ok () := by
    rw [sequence_groveInOrder]
    decide +kernel
  obtain ⟨⟨code, p⟩, hemit, -⟩ := map_eq_ok.mp hcompiles
  exact ⟨hs, hjoin, hlocked, 4, groveInOrder, code, p, horder, hemit,
    Joinless.exists_block_of_emit hs hjoin hlocked horder hemit⟩

end StoryGraph
