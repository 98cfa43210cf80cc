import Mathlib.Data.List.Perm.Basic
import StoryGraph.Proofs.Scene.Lookup
import StoryGraph.Proofs.Scene.Pool

/-!
# Drafts that fit into a project

A draft shares its pool with the other scenes of a project. It is sound beside these if its scene is
well-formed, and the pool holds its uids and theirs, none of them twice. An edit either leaves the graph
of bubbles as it is, or exchanges some bubbles for others, or changes the connections only; for each of
these ways there is a lemma here that says what it takes to stay sound.
-/

namespace StoryGraph

/-- Where a list has a first element that passes a test, it consists of that element and the rest. -/
theorem exists_perm_of_find? {α : Type} {q : α → Bool} {l : List α} {a : α} (h : l.find? q = some a) :
    ∃ rest, l.Perm (a :: rest) ∧ (l.eraseP q).Perm rest ∧
      ∀ f, (updateFirst q f l).Perm (f a :: rest) := by
  induction l with
  | nil => simp at h
  | cons x l ih =>
      rw [List.find?_cons] at h
      split at h
      · rename_i hx
        obtain rfl := Option.some.inj h
        exact ⟨l, .refl _, by rw [List.eraseP_cons_of_pos hx], fun f ↦ by rw [updateFirst, if_pos hx]⟩
      · rename_i hx
        obtain ⟨rest, hperm, herase, hupdate⟩ := ih h
        refine ⟨x :: rest, (hperm.cons x).trans (.swap a x rest), ?_, ?_⟩
        · rw [List.eraseP_cons_of_neg (by simp [hx])]
          exact herase.cons x
        · intro f
          rw [updateFirst, if_neg (by simp [hx])]
          exact ((hupdate f).cons x).trans (.swap (f a) x rest)

/-! ## Scenes -/

namespace Bubble

/-- What the graph of a scene has of a bubble. -/
def shape (b : Bubble) : Uid × BubbleType × List Uid := (b.uid, b.type, b.optionUids)

variable {b b' : Bubble} (h : b.shape = b'.shape)

include h

theorem uid_eq_of_shape : b.uid = b'.uid := congrArg (·.1) h

theorem isStart_eq_of_shape : b.isStart = b'.isStart := by
  have htype : b.type = b'.type := congrArg (·.2.1) h
  exact congrArg (fun t : BubbleType ↦ decide (t = .start)) htype

theorem slots_eq_of_shape : b.slots = b'.slots := by
  have htype : b.kind.type = b'.kind.type := congrArg (·.2.1) h
  have hoptions : b.optionUids = b'.optionUids := congrArg (·.2.2) h
  have hexits : b.exits = b'.exits := by
    unfold exits
    cases hkind : b.kind <;> cases hkind' : b'.kind <;>
      simp_all [BubbleKind.type, BubbleKind.exits]
  have hchoice : b.isChoice = b'.isChoice := congrArg (fun t : BubbleType ↦ decide (t = .choice)) htype
  rw [slots, slots, hchoice, hoptions, hexits, uid_eq_of_shape h]

end Bubble

namespace Scene

variable {s : Scene}

theorem map_shape_updateBubble (s : Scene) (u : Uid) {f : Bubble → Bubble}
    (hshape : ∀ b, (f b).shape = b.shape) :
    (s.updateBubble u f).bubbles.map (·.shape) = s.bubbles.map (·.shape) :=
  map_updateFirst (fun b _ ↦ hshape b) s.bubbles

/-- A scene is well-formed if its connections lead from slots of its bubbles to bubbles of it. -/
theorem wellFormed_of_links (hstart : s.bubbles.countP (·.isStart) = 1) (hnodup : s.uids.Nodup)
    (hlinks : ∀ c ∈ s.connections, (∃ b ∈ s.bubbles, c.slot ∈ b.slots) ∧
      ∃ b ∈ s.bubbles, b.uid = c.target ∧ b.isStart = false)
    (hids : (s.connections.map (·.id)).Nodup) (hslots : (s.connections.map (·.slot)).Nodup) :
    s.WellFormed := by
  refine ⟨hstart, hnodup, ?_, hids, hslots⟩
  intro c hc
  -- without its connections the scene is well-formed, and there it can be looked up what they join
  have hbare : WellFormed { s with connections := [] } := ⟨hstart, hnodup, by simp, .nil, .nil⟩
  obtain ⟨hsource, b, hb, huid, hno⟩ := hlinks c hc
  have hslot : s.hasSlot c.slot := hbare.hasSlot_iff.mpr hsource
  have hbubble : s.bubble? c.target = some b := hbare.bubble?_eq_some_iff.mpr ⟨hb, huid⟩
  simp [resolves, isTarget, hslot, hbubble, hno]

theorem WellFormed.exists_link (h : s.WellFormed) {c : Connection} (hc : c ∈ s.connections) :
    (∃ b ∈ s.bubbles, c.slot ∈ b.slots) ∧ ∃ b ∈ s.bubbles, b.uid = c.target ∧ b.isStart = false := by
  obtain ⟨b, hb, hmem, hno⟩ := h.exists_target hc
  exact ⟨h.exists_source hc, b, hmem, uid_of_bubble? hb, hno⟩

/-- Connections can be left out. -/
theorem WellFormed.of_sublist (h : s.WellFormed) {connections : List Connection}
    (hsub : connections.Sublist s.connections) : WellFormed { s with connections } where
  start_unique := h.start_unique
  nodup_uids := h.nodup_uids
  resolves c hc := h.resolves c (hsub.mem hc)
  nodup_ids := h.nodup_ids.sublist (hsub.map _)
  nodup_slots := h.nodup_slots.sublist (hsub.map _)

section

variable {bubbles : List Bubble} (hshape : bubbles.map (·.shape) = s.bubbles.map (·.shape))

include hshape

theorem uids_eq_of_shape : bubbles.flatMap (·.uids) = s.uids := by
  have := congrArg (List.flatMap fun shape ↦ shape.1 :: shape.2.2) hshape
  rwa [List.flatMap_map, List.flatMap_map] at this

theorem exists_of_shape {b : Bubble} (hb : b ∈ s.bubbles) : ∃ b' ∈ bubbles, b'.shape = b.shape := by
  have hmem := List.mem_map_of_mem (f := (·.shape)) hb
  rw [← hshape] at hmem
  exact List.mem_map.mp hmem

/-- A scene stays well-formed if its bubbles keep their shapes. -/
theorem WellFormed.reshape (h : s.WellFormed) : WellFormed { s with bubbles } := by
  have hstarts : bubbles.countP (·.isStart) = s.bubbles.countP (·.isStart) := by
    have := congrArg (List.countP fun shape ↦ shape.2.1 = .start) hshape
    rwa [List.countP_map, List.countP_map] at this
  apply wellFormed_of_links
  · exact hstarts.trans h.start_unique
  · show (bubbles.flatMap (·.uids)).Nodup
    exact uids_eq_of_shape hshape ▸ h.nodup_uids
  · intro c hc
    obtain ⟨⟨b, hb, hslot⟩, target, htarget, huid, hno⟩ := h.exists_link hc
    obtain ⟨b', hb', heq⟩ := exists_of_shape hshape hb
    obtain ⟨target', htarget', heq'⟩ := exists_of_shape hshape htarget
    exact ⟨⟨b', hb', Bubble.slots_eq_of_shape heq ▸ hslot⟩, target', htarget',
      (Bubble.uid_eq_of_shape heq').trans huid, (Bubble.isStart_eq_of_shape heq').trans hno⟩
  · exact h.nodup_ids
  · exact h.nodup_slots

end

end Scene

/-! ## Drafts -/

namespace Draft

/-- `Exchange d d' gone new rest`: between two drafts some bubbles are exchanged for others, and the rest
are the same. -/
structure Exchange (d d' : Draft) (gone new rest : List Bubble) : Prop where
  name_eq : d'.scene.name = d.scene.name
  before : d.scene.bubbles.Perm (gone ++ rest)
  after : d'.scene.bubbles.Perm (new ++ rest)
  /-- If the start goes there is another one. -/
  starts : new.countP (·.isStart) = gone.countP (·.isStart)
  nodup_uids : (new.flatMap (·.uids)).Nodup
  /-- What comes takes up uids of what goes, or free ones. -/
  free : ∀ u ∈ new.flatMap (·.uids), u ∈ gone.flatMap (·.uids) ∨ u ∉ d.pool
  mem_pool : ∀ u, u ∈ d'.pool ↔ u ∈ new.flatMap (·.uids) ∨ u ∈ d.pool ∧ u ∉ gone.flatMap (·.uids)
  /-- Connections are only taken away. -/
  kept : d'.scene.connections.Sublist d.scene.connections
  /-- What comes has the slots that connections leave. -/
  slot : ∀ c ∈ d'.scene.connections, ∀ b ∈ gone, c.slot ∈ b.slots → ∃ b' ∈ new, c.slot ∈ b'.slots
  /-- Among what comes is what connections end at. -/
  target : ∀ c ∈ d'.scene.connections, ∀ b ∈ gone, b.uid = c.target → b.isStart = false →
    ∃ b' ∈ new, b'.uid = c.target ∧ b'.isStart = false

namespace Exchange

variable {d d' : Draft} {gone new rest : List Bubble} (e : Exchange d d' gone new rest)

include e

theorem uids_perm : d.scene.uids.Perm (gone.flatMap (·.uids) ++ rest.flatMap (·.uids)) := by
  rw [← List.flatMap_append]
  exact e.before.flatMap_right _

theorem uids_perm' : d'.scene.uids.Perm (new.flatMap (·.uids) ++ rest.flatMap (·.uids)) := by
  rw [← List.flatMap_append]
  exact e.after.flatMap_right _

/-- What is taken up was taken up before, or it was free. -/
theorem mem_uids_or_not_mem_pool {u : Uid} (hu : u ∈ d'.scene.uids) : u ∈ d.scene.uids ∨ u ∉ d.pool := by
  rcases List.mem_append.mp (e.uids_perm'.mem_iff.mp hu) with hu | hu
  · exact (e.free u hu).imp_left fun hu ↦ e.uids_perm.mem_iff.mpr (List.mem_append_left _ hu)
  · exact .inl (e.uids_perm.mem_iff.mpr (List.mem_append_right _ hu))

/-- What connections stay still join two bubbles. -/
theorem exists_link (hwf : d.scene.WellFormed) {c : Connection} (hc : c ∈ d'.scene.connections) :
    (∃ b ∈ d'.scene.bubbles, c.slot ∈ b.slots) ∧
      ∃ b ∈ d'.scene.bubbles, b.uid = c.target ∧ b.isStart = false := by
  obtain ⟨⟨b, hb, hslot⟩, t, ht, huid, hno⟩ := hwf.exists_link (e.kept.mem hc)
  constructor
  · rcases List.mem_append.mp (e.before.mem_iff.mp hb) with hb | hb
    · obtain ⟨b', hmem, hslot'⟩ := e.slot c hc b hb hslot
      exact ⟨b', e.after.mem_iff.mpr (List.mem_append_left _ hmem), hslot'⟩
    · exact ⟨b, e.after.mem_iff.mpr (List.mem_append_right _ hb), hslot⟩
  · rcases List.mem_append.mp (e.before.mem_iff.mp ht) with ht | ht
    · obtain ⟨t', hmem, ht'⟩ := e.target c hc t ht huid hno
      exact ⟨t', e.after.mem_iff.mpr (List.mem_append_left _ hmem), ht'⟩
    · exact ⟨t, e.after.mem_iff.mpr (List.mem_append_right _ ht), huid, hno⟩

theorem wellFormed (hwf : d.scene.WellFormed) (hused : ∀ u ∈ d.scene.uids, u ∈ d.pool) :
    d'.scene.WellFormed := by
  obtain ⟨-, hrest, hdisj⟩ := List.nodup_append'.mp (e.uids_perm.nodup_iff.mp hwf.nodup_uids)
  apply Scene.wellFormed_of_links
  · rw [e.after.countP_eq, List.countP_append, e.starts, ← List.countP_append, ← e.before.countP_eq]
    exact hwf.start_unique
  · rw [e.uids_perm'.nodup_iff, List.nodup_append']
    refine ⟨e.nodup_uids, hrest, ?_⟩
    intro u hu hu'
    rcases e.free u hu with hold | hfree
    · exact hdisj hold hu'
    · exact hfree (hused u (e.uids_perm.mem_iff.mpr (List.mem_append_right _ hu')))
  · intro c hc
    exact e.exists_link hwf hc
  · exact hwf.nodup_ids.sublist (e.kept.map _)
  · exact hwf.nodup_slots.sublist (e.kept.map _)

end Exchange

/-- `Sound name others d`: a draft fits under a name beside the scenes that take up `others`. -/
structure Sound (name : String) (others : List Uid) (d : Draft) : Prop where
  name_eq : d.scene.name = name
  wellFormed : d.scene.WellFormed
  /-- The scene takes up no uid of the others. -/
  not_mem_others : ∀ u ∈ d.scene.uids, u ∉ others
  /-- A uid is in use exactly if the scene or the others take it up. -/
  mem_pool : ∀ u, u ∈ d.pool ↔ u ∈ d.scene.uids ∨ u ∈ others

namespace Sound

variable {name : String} {others : List Uid} {d d' : Draft} (h : d.Sound name others)

include h

/-- A draft stays sound if its connections change in a way that keeps its scene well-formed. -/
theorem relink {connections : List Connection}
    (hwf : Scene.WellFormed { d.scene with connections }) :
    Sound name others { d with scene := { d.scene with connections } } :=
  ⟨h.name_eq, hwf, h.not_mem_others, h.mem_pool⟩

/-- A draft stays sound if its bubbles keep their shapes. -/
theorem reshape {bubbles : List Bubble} (hshape : bubbles.map (·.shape) = d.scene.bubbles.map (·.shape)) :
    Sound name others { d with scene := { d.scene with bubbles } } := by
  have huids := Scene.uids_eq_of_shape hshape
  refine ⟨h.name_eq, h.wellFormed.reshape hshape, ?_, ?_⟩
  · intro u hu
    exact h.not_mem_others u (huids ▸ hu)
  · intro u
    show u ∈ d.pool ↔ u ∈ bubbles.flatMap (·.uids) ∨ u ∈ others
    rw [huids]
    exact h.mem_pool u

/-- A draft stays sound if some of its bubbles are exchanged for others. -/
theorem exchange {gone new rest : List Bubble} (e : Exchange d d' gone new rest) :
    d'.Sound name others := by
  have huids := e.uids_perm
  have huids' := e.uids_perm'
  have hused : ∀ u ∈ d.scene.uids, u ∈ d.pool := fun u hu ↦ (h.mem_pool u).mpr (.inl hu)
  constructor
  · exact e.name_eq.trans h.name_eq
  · exact e.wellFormed h.wellFormed hused
  · intro u hu hothers
    rcases e.mem_uids_or_not_mem_pool hu with hold | hfree
    · exact h.not_mem_others u hold hothers
    · exact hfree ((h.mem_pool u).mpr (.inr hothers))
  · intro u
    have hgone_others : u ∈ gone.flatMap (·.uids) → u ∉ others := fun hu ↦
      h.not_mem_others u (huids.mem_iff.mpr (List.mem_append_left _ hu))
    have hgone_rest : u ∈ gone.flatMap (·.uids) → u ∉ rest.flatMap (·.uids) := fun hu hu' ↦
      List.disjoint_of_nodup_append (huids.nodup_iff.mp h.wellFormed.nodup_uids) hu hu'
    rw [e.mem_pool, h.mem_pool, huids.mem_iff, huids'.mem_iff, List.mem_append, List.mem_append]
    tauto

end Sound

end Draft

end StoryGraph
