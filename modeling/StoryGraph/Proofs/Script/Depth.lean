import Mathlib.Data.List.Chain
import Mathlib.Data.List.Perm.Subperm
import StoryGraph.Proofs.Outcome
import StoryGraph.Proofs.Scene.Reachable
import StoryGraph.Proofs.Scene.Repair
import StoryGraph.Proofs.Script.Failure
import StoryGraph.Proofs.Script.FinalPass

/-!
# What the limit of depth does

The limit decides only whether there is a script, and never which. Where emission fails, it is for a way of
bubbles that is too long: each has a link to the next, and none comes twice, since a bubble in line is one
that has not been emitted. So a limit that leaves room for all bubbles of a scene is no limit.
-/

namespace StoryGraph

/-! ## More room -/

namespace Emission

variable {α β : Type}

/-- `x.Approximates y`: where `x` succeeds, `y` comes to the same. -/
def Approximates (x y : Emission α) : Prop := ∀ g r, x.run g = .ok r → y.run g = .ok r

theorem Approximates.refl (x : Emission α) : x.Approximates x := fun _ _ h ↦ h

theorem Approximates.bind {x y : Emission α} {f f' : α → Emission β} (h : x.Approximates y)
    (hf : ∀ a, (f a).Approximates (f' a)) : Approximates (x >>= f) (y >>= f') := by
  rintro g ⟨b, g'⟩ hrun
  obtain ⟨a, g₁, hx, hfa⟩ := run_bind_eq_ok.mp hrun
  exact run_bind_eq_ok.mpr ⟨a, g₁, h g _ hx, hf a g₁ _ hfa⟩

end Emission

namespace LabelPolicy

variable {p : LabelPolicy}

section

variable {inline inline' : Nat → Uid → Emission (List Item)}
  (h : ∀ level u, (inline level u).Approximates (inline' level u))

include h

theorem follow_approximates (slot : Slot) (level : Nat) :
    (p.follow inline slot level).Approximates (p.follow inline' slot level) := by
  unfold follow
  split
  · exact .refl _
  · split
    · exact .refl _
    · refine .bind (.refl _) fun progress ↦ ?_
      split
      · exact .refl _
      · exact h _ _

theorem options_approximates (level : Nat) (options : List ChoiceOption) :
    (p.options inline level options).Approximates (p.options inline' level options) := by
  induction options with
  | nil => exact .refl _
  | cons o options ih => exact .bind (follow_approximates h _ _) fun _ ↦ .bind ih fun _ ↦ .refl _

theorem body_approximates (level : Nat) (u : Uid) (kind : BubbleKind) :
    (p.body inline level u kind).Approximates (p.body inline' level u kind) := by
  unfold body
  cases kind with
  | start =>
      simp only
      split
      · exact .refl _
      · exact h _ _
  | story text | action text => exact .bind (follow_approximates h _ _) fun _ ↦ .refl _
  | choice options => exact .bind (options_approximates h _ _) fun _ ↦ .refl _
  | condition expression =>
      exact .bind (follow_approximates h _ _) fun _ ↦ .bind (follow_approximates h _ _) fun _ ↦ .refl _

theorem block_approximates (level : Nat) (b : Bubble) :
    (p.block inline level b).Approximates (p.block inline' level b) := by
  unfold block
  split
  · exact .bind (body_approximates h _ _ _) fun _ ↦ .refl _
  · exact .bind (body_approximates h _ _ _) fun _ ↦ .refl _

end

variable {limit limit' room room' : Nat}

theorem emitBubble_of_mem {level : Nat} {u : Uid} {g : Progress} (h : u ∈ g.emitted) :
    (p.emitBubble limit room level u).run g = .ok ([], g) := by
  unfold emitBubble
  rw [Emission.run_get_bind, if_pos h]
  rfl

theorem emitBubble_approximates (hroom : room ≤ room') (level : Nat) (u : Uid) :
    (p.emitBubble limit room level u).Approximates (p.emitBubble limit' room' level u) := by
  induction room generalizing room' level u with
  | zero =>
      rintro g ⟨items, g'⟩ hrun
      by_cases hmem : u ∈ g.emitted
      · rw [emitBubble_of_mem hmem] at hrun ⊢
        exact hrun
      · rw [emitBubble, Emission.run_get_bind, if_neg hmem] at hrun
        exact absurd hrun Emission.run_throw_ne_ok
  | succ room ih =>
      obtain ⟨room', rfl⟩ : ∃ n, room' = n + 1 := ⟨room' - 1, by omega⟩
      unfold emitBubble
      refine .bind (.refl _) fun progress ↦ ?_
      split
      · exact .refl _
      · refine .bind (.refl _) fun _ ↦ ?_
        split
        · exact .refl _
        · exact block_approximates (fun level u ↦ ih (by omega) level u) _ _

theorem emitAll_approximates (h : limit ≤ limit') (us : List Uid) :
    (p.emitAll limit us).Approximates (p.emitAll limit' us) := by
  induction us with
  | nil => exact .refl _
  | cons u us ih =>
      exact .bind (emitBubble_approximates (by omega) _ _) fun _ ↦ .bind ih fun _ ↦ .refl _

/-- A script that there is under a limit is there under every higher limit. -/
theorem emit_eq_ok_of_le (h : limit ≤ limit') {r : List Item × LabelPolicy}
    (hemit : p.emit limit = .ok r) : p.emit limit' = .ok r := by
  induction p using emit.induct limit with
  | case1 p e herror =>
      rw [emit, herror] at hemit
      contradiction
  | case2 p code progress hok hnone =>
      rw [emit, hok] at hemit
      rw [emit, pass, emitAll_approximates h _ _ _ hok]
      simp only [hnone, dif_pos] at hemit ⊢
      exact hemit
  | case3 p code progress hok hsome ih =>
      rw [emit, hok] at hemit
      rw [emit, pass, emitAll_approximates h _ _ _ hok]
      simp only [hsome, dif_neg, not_false_eq_true] at hemit ⊢
      exact ih hemit

end LabelPolicy

/-! ## Ways that are too long -/

/-- What gives way to a bubble in line among the parts of another is one of its links. -/
theorem Step.linksTo {p : LabelPolicy} {g g₁ : Progress} {part : Part} {items : List Item} {level l : Nat}
    {u : Uid} {b : Bubble} (h : Step p g part items g₁ [.bubble l u])
    (hb : p.scene.bubble? b.uid = some b) (hpart : part ∈ b.parts level) : p.scene.LinksTo b.uid u := by
  generalize hfront : [Part.bubble l u] = front at h
  have hlinks : ∀ {slot : Slot} {c : Connection}, slot ∈ b.slots → p.scene.link? slot = some c →
      p.scene.LinksTo b.uid c.target :=
    fun hslot hlink ↦ ⟨_, (Scene.mem_links_iff_of_bubble? hb).mpr ⟨_, hslot, hlink⟩, rfl⟩
  cases h with
  | @inline slot _ c hlink =>
      obtain ⟨-, rfl⟩ := Part.bubble.inj (List.cons.inj hfront).1
      refine hlinks ?_ hlink
      have hslot : slot ∈ slotsOf (b.parts level) := List.mem_filterMap.mpr ⟨_, hpart, rfl⟩
      rw [slotsOf_parts] at hslot
      exact (Bubble.mem_outlets.mp hslot).2
  | @entry slot _ c hlink =>
      obtain ⟨-, rfl⟩ := Part.bubble.inj (List.cons.inj hfront).1
      obtain ⟨hstart, rfl, -⟩ := isOf_of_mem_parts hpart
      exact hlinks (by simp [Bubble.slots_of_isStart hstart]) hlink
  | take => exact absurd (isOf_of_mem_parts hpart) id
  | _ => cases hfront

/-- `s.Fresh emitted way`: a way goes along links from one bubble to the next, over none twice and none that
has been emitted. -/
structure Scene.Fresh (s : Scene) (emitted way : List Uid) : Prop where
  chain : way.IsChain s.LinksTo
  nodup : way.Nodup
  fresh : ∀ u ∈ way, u ∉ emitted

theorem Scene.Fresh.cons {s : Scene} {emitted emitted' way : List Uid} {u v : Uid}
    (h : s.Fresh emitted' (v :: way)) (hlink : s.LinksTo u v) (hnew : u ∉ emitted)
    (hsuffix : u :: emitted <:+ emitted') : s.Fresh emitted (u :: v :: way) where
  chain := .cons_cons hlink h.chain
  nodup := List.nodup_cons.mpr ⟨fun hu ↦ h.fresh u hu (hsuffix.mem List.mem_cons_self), h.nodup⟩
  fresh := List.forall_mem_cons.mpr
    ⟨hnew, fun w hw hmem ↦ h.fresh w hw (hsuffix.mem (List.mem_cons_of_mem _ hmem))⟩

variable {p : LabelPolicy} {limit room level : Nat} {u : Uid} {g : Progress} {e : Error}

/-- A bubble fails for a way from it that takes more than the room that there is. -/
theorem exists_way_of_emitBubble (h : (p.emitBubble limit room level u).run g = .error e) :
    ∃ way last, e = .depthLimitExceeded last limit ∧ way.length = room ∧
      p.scene.Fresh g.emitted (u :: way) ∧ (u :: way).getLast? = some last := by
  -- along the room that is left, where each bubble in line makes the set of those emitted larger
  induction room generalizing level u g with
  | zero =>
      obtain ⟨hnew, rfl⟩ := eq_of_emitBubble_zero h
      exact ⟨[], u, rfl, rfl, ⟨.singleton u, List.nodup_singleton u, by simpa using hnew⟩, rfl⟩
  | succ room ih =>
      obtain ⟨hnew, b, hbubble, hstops⟩ := stops_of_emitBubble h
      obtain ⟨part, hpart, g₁, l, v, hsuffix, hstep, hfail⟩ := hstops.exists_part
      obtain rfl := Scene.uid_of_bubble? hbubble
      obtain ⟨way, last, he, hlength, hfresh, hlast⟩ := ih hfail
      refine ⟨v :: way, last, he, by simp [hlength], ?_, by simpa using hlast⟩
      exact hfresh.cons (hstep.linksTo hbubble hpart) hnew hsuffix

theorem exists_of_emitAll_eq_error {us : List Uid} (h : (p.emitAll limit us).run g = .error e) :
    ∃ u ∈ us, ∃ g₁, (p.emitBubble limit (limit + 1) 0 u).run g₁ = .error e := by
  induction us generalizing g with
  | nil => exact absurd h Emission.run_pure_ne_error
  | cons u us ih =>
      rcases Emission.run_bind_eq_error h with h | ⟨_, _, -, h⟩
      · exact ⟨u, List.mem_cons_self, g, h⟩
      · rcases Emission.run_bind_eq_error h with h | ⟨_, _, -, h⟩
        · obtain ⟨v, hv, hfail⟩ := ih h
          exact ⟨v, List.mem_cons_of_mem _ hv, hfail⟩
        · exact absurd h Emission.run_pure_ne_error

/-- Emission fails only if a pass does, along the same sequence. -/
theorem LabelPolicy.exists_pass_of_emit_eq_error (h : p.emit limit = .error e) :
    ∃ q : LabelPolicy, q.scene = p.scene ∧ q.sequence = p.sequence ∧ q.pass limit = .error e := by
  induction p using emit.induct limit with
  | case1 p e' herror =>
      rw [emit, herror] at h
      exact ⟨p, rfl, rfl, herror.trans (congrArg _ (Except.error.inj h))⟩
  | case2 p code progress hok hnone =>
      rw [emit, hok] at h
      simp [hnone] at h
  | case3 p code progress hok hsome ih =>
      rw [emit, hok] at h
      simp only [hsome, dif_neg, not_false_eq_true] at h
      rw [force_newlyStranded hsome] at ih h
      exact ih h

/-! ## The limit -/

namespace Scene

section

variable {s : Scene} (hs : ∀ c ∈ s.connections, s.resolves c)

include hs

/-- Where connections are resolved, a way from a bubble goes over bubbles. -/
theorem exists_bubble_of_way {way : List Uid} (hway : (u :: way).IsChain s.LinksTo)
    (hu : ∃ b ∈ s.bubbles, b.uid = u) : ∀ v ∈ u :: way, ∃ b ∈ s.bubbles, b.uid = v := by
  refine List.forall_mem_cons.mpr ⟨hu, hway.cons_induction _ way ?_ hu⟩
  rintro v - ⟨c, hc, rfl⟩ -
  obtain ⟨-, b, hb, -⟩ := resolves_iff.mp (hs c (mem_connections_of_mem_links hc))
  exact ⟨b, mem_of_bubble? hb, uid_of_bubble? hb⟩

/-- Emission fails only for a way that goes over more bubbles than the limit leaves room for. -/
theorem exists_way_of_emit (h : s.emit s.sequence limit = .error e) :
    ∃ u, ∃ way : List Uid, e = .depthLimitExceeded u limit ∧ way.length = limit + 2 ∧ way.Nodup ∧
      way.IsChain s.LinksTo ∧ way.getLast? = some u ∧ ∀ v ∈ way, ∃ b ∈ s.bubbles, b.uid = v := by
  obtain ⟨p, hscene, hsequence, hpass⟩ := LabelPolicy.exists_pass_of_emit_eq_error h
  obtain rfl : p.scene = s := hscene
  have hsequence : p.sequence = p.scene.sequence := hsequence
  obtain ⟨u, hu, g, hfail⟩ := exists_of_emitAll_eq_error hpass
  obtain ⟨way, last, he, hlength, hfresh, hlast⟩ := exists_way_of_emitBubble hfail
  have hbubble : ∃ b ∈ p.scene.bubbles, b.uid = u := mem_sequence.mp (hsequence ▸ hu)
  exact ⟨last, u :: way, he, by simp [hlength], hfresh.nodup, hfresh.chain, hlast,
    exists_bubble_of_way hs hfresh.chain hbubble⟩

/-- A limit with room for all bubbles is no limit. -/
theorem exists_emit_of_length_le (h : s.bubbles.length ≤ limit + 1) :
    ∃ r, s.emit s.sequence limit = .ok r := by
  cases hemit : s.emit s.sequence limit with
  | ok r => exact ⟨r, rfl⟩
  | error e =>
      obtain ⟨u, way, -, hlength, hnodup, -, -, hbubbles⟩ := exists_way_of_emit hs hemit
      have hsub : way ⊆ s.bubbles.map (·.uid) := fun v hv ↦ List.mem_map.mpr (hbubbles v hv)
      have hle := (hnodup.subperm hsub).length_le
      rw [List.length_map] at hle
      omega

end

/-- A story goes on when a condition holds, and begins again as long as it does not. No link but its own
leads to another story, which has to be forced to have a label. -/
def turningBack : Scene where
  name := "lane"
  bubbles :=
    [.create ⟨1⟩ .start, .create ⟨2⟩ (.story "walk"), .create ⟨3⟩ (.condition "key"),
      .create ⟨4⟩ (.story "wait")]
  connections :=
    [⟨⟨0⟩, ⟨⟨1⟩, .next⟩, ⟨2⟩, .south, .north⟩, ⟨⟨1⟩, ⟨⟨2⟩, .next⟩, ⟨3⟩, .south, .north⟩,
      ⟨⟨2⟩, ⟨⟨3⟩, .whenFalse⟩, ⟨2⟩, .south, .north⟩, ⟨⟨3⟩, ⟨⟨4⟩, .next⟩, ⟨4⟩, .south, .north⟩]

theorem wellFormed_turningBack : turningBack.WellFormed := by decide

theorem exists_emit_turningBack :
    ∃ code p, turningBack.emit turningBack.sequence 3 = .ok (code, p) := by
  obtain ⟨⟨code, p⟩, hemit⟩ := exists_emit_of_length_le (by decide : ∀ c ∈ turningBack.connections,
    turningBack.resolves c) (by decide : turningBack.bubbles.length ≤ 3 + 1)
  exact ⟨code, p, hemit⟩

end Scene

/-- A limit of depth refuses scripts and does not change them: a script under one limit is the script under
every higher one. Where all connections are resolved, a limit refuses only for a way that goes over more
bubbles than it leaves room for, and so never if there is room for all. -/
theorem Scene.limit_refuses_long_ways (s : Scene) :
    (∀ sequence limit limit' code p, limit ≤ limit' → s.emit sequence limit = .ok (code, p) →
      s.emit sequence limit' = .ok (code, p)) ∧
    ((∀ c ∈ s.connections, s.resolves c) →
      (∀ limit, s.bubbles.length ≤ limit + 1 → ∃ code p, s.emit s.sequence limit = .ok (code, p)) ∧
      ∀ limit e, s.emit s.sequence limit = .error e →
        ∃ u, ∃ way : List Uid, e = .depthLimitExceeded u limit ∧ way.length = limit + 2 ∧ way.Nodup ∧
          way.IsChain s.LinksTo ∧ way.getLast? = some u ∧ ∀ v ∈ way, ∃ b ∈ s.bubbles, b.uid = v) := by
  refine ⟨fun _ _ _ _ _ h ↦ LabelPolicy.emit_eq_ok_of_le h, fun hs ↦ ⟨fun limit h ↦ ?_, ?_⟩⟩
  · obtain ⟨⟨code, p⟩, hemit⟩ := exists_emit_of_length_le hs h
    exact ⟨code, p, hemit⟩
  · exact fun _ _ ↦ exists_way_of_emit hs

/-- A condition behind the start, with a story that leads back to it on one side, and an action with a story
behind it on the other. -/
def Scene.ladder : Scene where
  name := "ladder"
  bubbles :=
    [⟨⟨0⟩, "", 0, false, .start⟩, ⟨⟨1⟩, "", 0, false, .condition "low"⟩,
      ⟨⟨2⟩, "", 1, false, .story "higher"⟩, ⟨⟨3⟩, "", 1, false, .action "*set low false"⟩,
      ⟨⟨4⟩, "", 2, false, .story "top"⟩]
  connections :=
    [⟨⟨0⟩, ⟨⟨0⟩, .next⟩, ⟨1⟩, .south, .north⟩, ⟨⟨1⟩, ⟨⟨1⟩, .whenTrue⟩, ⟨2⟩, .south, .north⟩,
      ⟨⟨2⟩, ⟨⟨2⟩, .next⟩, ⟨1⟩, .south, .north⟩, ⟨⟨3⟩, ⟨⟨1⟩, .whenFalse⟩, ⟨3⟩, .south, .north⟩,
      ⟨⟨4⟩, ⟨⟨3⟩, .next⟩, ⟨4⟩, .south, .north⟩]

/-- With a limit of 2 the story on top is too far, and with one of 4 there is room for all. -/
theorem Scene.limit_ladder :
    (∀ c ∈ ladder.connections, ladder.resolves c) ∧
    ladder.emit ladder.sequence 2 = .error (.depthLimitExceeded ⟨4⟩ 2) ∧
    (∃ way : List Uid, way.length = 4 ∧ way.Nodup ∧ way.IsChain ladder.LinksTo ∧ way.getLast? = some ⟨4⟩ ∧
      ∀ v ∈ way, ∃ b ∈ ladder.bubbles, b.uid = v) ∧
    ∃ code p, ladder.emit ladder.sequence 4 = .ok (code, p) ∧
      ladder.emit ladder.sequence 9 = .ok (code, p) := by
  obtain ⟨hmono, hresolved⟩ := limit_refuses_long_ways ladder
  have hs : ∀ c ∈ ladder.connections, ladder.resolves c := by decide
  obtain ⟨hroom, hrefuses⟩ := hresolved hs
  have hsequence : ladder.sequence = ladder.bubbles.map (·.uid) :=
    WellFormed.sequence_eq_map (by decide) (.refl _) (by decide)
  have hfail : ladder.emit ladder.sequence 2 = .error (.depthLimitExceeded ⟨4⟩ 2) := by
    rw [hsequence]
    exact map_eq_error.mp (by decide +kernel : Except.map (·.1) _ = _)
  obtain ⟨u, way, he, hway⟩ := hrefuses 2 _ hfail
  obtain ⟨rfl, -⟩ := Error.depthLimitExceeded.inj he
  obtain ⟨code, p, hemit⟩ := hroom 4 (by decide)
  exact ⟨hs, hfail, ⟨way, hway⟩, code, p, hemit, hmono _ 4 9 code p (by decide) hemit⟩

end StoryGraph
