import Mathlib.Data.List.Induction
import StoryGraph.Proofs.Scene.SlotMap

/-!
# The numbers of connections

No count of connections is kept. A new connection gets the least id above those that are there once its slot
is free, so connections always stand in the order of their ids, which is the order in which they were made.
But a scene knows nothing of connections that have gone. While the newest one stays the ids go up; when it
goes, or the slot that it leaves is linked anew, its id is the next to be given.
-/

namespace StoryGraph

open Scene

/-! ## What an edit makes -/

/-- The connection that an edit makes, if it makes one. -/
def SceneEdit.made? (d : Draft) : SceneEdit → Option Connection
  | .connect slot target sourceAnchor targetAnchor =>
      match d.scene.connect slot target sourceAnchor targetAnchor with
      | .ok (id, _) => some ⟨id, slot, target, sourceAnchor, targetAnchor⟩
      | .error _ => none
  | _ => none

namespace Draft

/-- What edits leave behind, one after the other, also where one of them fails. -/
def run (d : Draft) : List SceneEdit → Draft
  | [] => d
  | e :: es => (e.apply d).2.run es

/-- The connections that edits make, in the order in which they are made. -/
def made (d : Draft) : List SceneEdit → List Connection
  | [] => []
  | e :: es => (e.made? d).toList ++ (e.apply d).2.made es

variable {d : Draft} {es : List SceneEdit} {e : SceneEdit}

theorem run_concat (d : Draft) (es : List SceneEdit) (e : SceneEdit) :
    d.run (es ++ [e]) = (e.apply (d.run es)).2 := by
  induction es generalizing d with
  | nil => rfl
  | cons e' es ih => exact ih _

theorem made_concat (d : Draft) (es : List SceneEdit) (e : SceneEdit) :
    d.made (es ++ [e]) = d.made es ++ (e.made? (d.run es)).toList := by
  induction es generalizing d with
  | nil => exact List.append_nil _
  | cons e' es ih =>
      rw [List.cons_append, made, made, ih, List.append_assoc]
      rfl

/-- Whatever is removed with an option is a link of the option. -/
theorem sublist_removeOption (d : Draft) (option : Uid) :
    (d.removeOption option).2.scene.connections.Sublist d.scene.connections := by
  unfold Draft.removeOption
  split
  · exact .refl _
  · dsimp only
    split <;> exact List.filter_sublist

theorem sublist_removeBubble {d' : Draft} {u : Uid} {b : Bubble} (h : d.removeBubble u = .ok (b, d')) :
    d'.scene.connections.Sublist d.scene.connections := by
  unfold Draft.removeBubble at h
  split at h
  · contradiction
  · split at h
    · contradiction
    · obtain ⟨-, rfl⟩ := Prod.mk.inj (Except.ok.inj h)
      exact List.filter_sublist

end Draft

/-- `e.Leaves d kept`: these of the connections that were there an edit leaves. -/
structure SceneEdit.Leaves (e : SceneEdit) (d : Draft) (kept : List Connection) : Prop where
  /-- They stay in their order. -/
  sublist : kept.Sublist d.scene.connections
  /-- Behind them stands the one that the edit makes. -/
  connections_eq : (e.apply d).2.scene.connections = kept ++ (e.made? d).toList
  /-- None of them leaves the slot of that one, which has the least id above theirs. -/
  made : ∀ c ∈ e.made? d, kept = (d.scene.withoutLink c.slot).connections ∧ c.id.toNat = idBound kept

theorem SceneEdit.exists_leaves (d : Draft) (e : SceneEdit) : ∃ kept, e.Leaves d kept := by
  have hnone (hsub : (e.apply d).2.scene.connections.Sublist d.scene.connections)
      (hmade : e.made? d = none) : ∃ kept, e.Leaves d kept := by
    refine ⟨_, hsub, ?_, ?_⟩
    · rw [hmade, Option.toList_none, List.append_nil]
    · simp [hmade]
  have hsame {d' : Draft} (h : d'.scene.connections = d.scene.connections) :
      d'.scene.connections.Sublist d.scene.connections := h ▸ .refl _
  let Kept (d' : Draft) : Prop := d'.scene.connections.Sublist d.scene.connections
  have hrefl : Kept d := .refl _
  cases e with
  | addBubble kind =>
      exact hnone (of_attempt_map (P := Kept) hrefl fun _ h ↦ hsame (Draft.connections_addBubble h)) rfl
  | insertBubble b =>
      exact hnone (of_attempt (P := Kept) hrefl fun _ h ↦ hsame (Draft.connections_insertBubble h)) rfl
  | addOption choice text =>
      exact hnone (of_attempt_map (P := Kept) hrefl fun _ h ↦ hsame (Draft.connections_addOption h)) rfl
  | removeOption option => exact hnone (d.sublist_removeOption option) rfl
  | removeBubble u =>
      exact hnone (of_attempt_map (P := Kept) hrefl fun _ h ↦ Draft.sublist_removeBubble h) rfl
  | disconnect id =>
      refine hnone (of_attempt_map (P := Kept) hrefl fun ⟨c, s'⟩ h ↦ ?_) rfl
      obtain rfl := of_disconnect h
      exact List.eraseP_sublist
  | repair => exact hnone (d.scene.of_sift d.scene.connections [] []).1 rfl
  | computeOrder =>
      exact hnone (of_attempt_map (P := Kept) hrefl fun _ h ↦ hsame (Scene.of_computeOrder h).2.1) rfl
  | set u field => exact hnone (.refl _) rfl
  | connect slot target sourceAnchor targetAnchor =>
      cases hconnect : d.scene.connect slot target sourceAnchor targetAnchor with
      | error _ =>
          refine hnone ?_ (by rw [made?, hconnect])
          rw [apply, hconnect]
          exact .refl _
      | ok made =>
          obtain ⟨id, s'⟩ := made
          obtain ⟨-, -, hid, rfl⟩ := of_connect hconnect
          have hmade : (connect slot target sourceAnchor targetAnchor).made? d =
              some ⟨id, slot, target, sourceAnchor, targetAnchor⟩ := by rw [made?, hconnect]
          refine ⟨_, d.scene.sublist_withoutLink slot, ?_, ?_⟩
          · rw [hmade, apply, hconnect]
            rfl
          · rw [hmade]
            rintro _ ⟨⟩
            exact ⟨rfl, hid⟩

/-! ## Connections in the order of their ids -/

theorem Scene.exists_of_lt_idBound {cs : List Connection} {n : Nat} (h : n < idBound cs) :
    ∃ c ∈ cs, n ≤ c.id.toNat := by
  by_contra hnone
  refine absurd h (Nat.not_lt.mpr (idBound_le_iff.mpr fun c hc ↦ ?_))
  exact Nat.lt_of_not_le fun hle ↦ hnone ⟨c, hc, hle⟩

/-- `Numbered made cs`: of the connections that have been made, some are there. -/
structure Numbered (made cs : List Connection) : Prop where
  /-- They stand in the order in which they were made. -/
  sublist : cs.Sublist made
  /-- That is the order of their ids. -/
  ascending : cs.Pairwise (·.id.toNat < ·.id.toNat)
  /-- Below an id that has been given every number has been given. -/
  dense : ∀ c ∈ made, ∀ n < c.id.toNat, ∃ c' ∈ made, c'.id.toNat = n

namespace Numbered

variable {made cs kept : List Connection} {c : Connection}

theorem nil : Numbered [] [] := ⟨.refl _, .nil, by simp⟩

theorem keep (h : Numbered made cs) (hkept : kept.Sublist cs) : Numbered made kept :=
  ⟨hkept.trans h.sublist, h.ascending.sublist hkept, h.dense⟩

/-- The least id above some that are there has been given, or it is the least that has not. -/
theorem append (h : Numbered made kept) (hid : c.id.toNat = idBound kept) :
    Numbered (made ++ [c]) (kept ++ [c]) := by
  refine ⟨h.sublist.append (.refl _), ?_, ?_⟩
  · refine List.pairwise_append.mpr ⟨h.ascending, List.pairwise_singleton _ _, ?_⟩
    intro c' hc' _ hc
    rw [List.mem_singleton.mp hc, hid]
    exact lt_idBound hc'
  · have hdense : ∀ c' ∈ made ++ [c], ∀ n < c'.id.toNat, ∃ c'' ∈ made, c''.id.toNat = n := by
      intro c' hc' n hn
      rcases List.mem_append.mp hc' with hc' | hc'
      · exact h.dense c' hc' n hn
      · rw [List.mem_singleton.mp hc', hid] at hn
        obtain ⟨c'', hmem, hle⟩ := exists_of_lt_idBound hn
        have hmem := h.sublist.subset hmem
        rcases Nat.eq_or_lt_of_le hle with heq | hlt
        · exact ⟨c'', hmem, heq.symm⟩
        · exact h.dense c'' hmem n hlt
    intro c' hc' n hn
    obtain ⟨c'', hmem, heq⟩ := hdense c' hc' n hn
    exact ⟨c'', List.mem_append_left _ hmem, heq⟩

/-- An edit keeps the connections of a scene in the order of their ids. -/
theorem apply {d : Draft} (h : Numbered made d.scene.connections) (e : SceneEdit) :
    Numbered (made ++ (e.made? d).toList) (e.apply d).2.scene.connections := by
  obtain ⟨kept, hsub, heq, hmade⟩ := e.exists_leaves d
  rw [heq]
  cases hc : e.made? d with
  | none => simpa using h.keep hsub
  | some c => exact (h.keep hsub).append (hmade c hc).2

/-- So do any edits in any order. -/
theorem run {d : Draft} (h : Numbered [] d.scene.connections) (es : List SceneEdit) :
    Numbered (d.made es) (d.run es).scene.connections := by
  induction es using List.reverseRecOn with
  | nil => exact h
  | append_singleton es e ih =>
      rw [d.run_concat, d.made_concat]
      exact ih.apply e

/-- The least id above some that are there has been given before exactly if one above them all has. -/
theorem exists_id_eq_idBound_iff (h : Numbered made cs) (kept : List Connection) :
    (∃ c ∈ made, c.id.toNat = idBound kept) ↔ ∃ c ∈ made, ∀ c' ∈ kept, c'.id.toNat < c.id.toNat := by
  constructor
  · rintro ⟨c, hc, hid⟩
    exact ⟨c, hc, fun c' hc' ↦ hid ▸ lt_idBound hc'⟩
  · rintro ⟨c, hc, habove⟩
    rcases Nat.eq_or_lt_of_le (idBound_le_iff.mpr habove) with heq | hlt
    · exact ⟨c, hc, heq.symm⟩
    · exact h.dense c hc _ hlt

end Numbered

/-! ## Ids that go up -/

/-- `d.KeepsNewest es`: where one of the edits makes a connection, the one that was made last is there, and
does not leave the same slot. -/
def Draft.KeepsNewest (d : Draft) (es : List SceneEdit) : Prop :=
  ∀ before e after, es = before ++ e :: after → ∀ c ∈ e.made? (d.run before),
    ∀ newest ∈ (d.made before).getLast?, newest ∈ (d.run before).scene.connections ∧ newest.slot ≠ c.slot

namespace Draft

variable {d : Draft} {es : List SceneEdit} {e : SceneEdit}

theorem keepsNewest_nil : d.KeepsNewest [] := by
  intro before e after heq
  simp at heq

theorem keepsNewest_concat :
    d.KeepsNewest (es ++ [e]) ↔ d.KeepsNewest es ∧ ∀ c ∈ e.made? (d.run es),
      ∀ newest ∈ (d.made es).getLast?, newest ∈ (d.run es).scene.connections ∧ newest.slot ≠ c.slot := by
  constructor
  · intro h
    refine ⟨?_, h es e [] rfl⟩
    rintro before e' after rfl
    exact h before e' (after ++ [e]) (by simp)
  · rintro ⟨h, hlast⟩ before e' after heq
    rcases List.eq_nil_or_concat' after with rfl | ⟨after, e'', rfl⟩
    · obtain ⟨rfl, he⟩ := List.append_inj' heq rfl
      obtain rfl := List.singleton_inj.mp he
      exact hlast
    · rw [← List.cons_append, ← List.append_assoc] at heq
      exact h before e' after (List.append_inj' heq rfl).1

/-- Of connections with ids that go up the newest has the last one. -/
theorem eq_or_lt_of_getLast? {made : List Connection} (h : made.Pairwise (·.id.toNat < ·.id.toNat))
    {newest : Connection} (hlast : made.getLast? = some newest) {c : Connection} (hc : c ∈ made) :
    c = newest ∨ c.id.toNat < newest.id.toNat := by
  obtain ⟨before, rfl⟩ := List.getLast?_eq_some_iff.mp hlast
  rcases List.mem_append.mp hc with hc | hc
  · exact .inr ((List.pairwise_append.mp h).2.2 c hc newest List.mem_cons_self)
  · exact .inl (List.mem_singleton.mp hc)

/-- A connection comes with an id above all that have been given exactly if it finds the newest one there. -/
theorem forall_lt_iff {made : List Connection} (h : made.Pairwise (·.id.toNat < ·.id.toNat)) {s : Scene}
    (hsub : s.connections.Sublist made) {slot : Slot} {id : ConnectionId}
    (hid : id.toNat = idBound (s.withoutLink slot).connections) :
    (∀ c ∈ made, c.id.toNat < id.toNat) ↔
      ∀ newest ∈ made.getLast?, newest ∈ s.connections ∧ newest.slot ≠ slot := by
  constructor
  · intro hall newest hlast
    have hlt := hall newest (List.mem_of_getLast? hlast)
    obtain ⟨c, hc, hle⟩ := exists_of_lt_idBound (hid ▸ hlt)
    have hc := mem_connections_withoutLink.mp hc
    rcases eq_or_lt_of_getLast? h hlast (hsub.subset hc.1) with rfl | hlt
    · exact hc
    · exact absurd hle (Nat.not_le.mpr hlt)
  · intro hnewest c hc
    obtain ⟨newest, hlast⟩ : ∃ newest, made.getLast? = some newest :=
      Option.isSome_iff_exists.mp (List.getLast?_isSome.mpr (List.ne_nil_of_mem hc))
    have hlt : newest.id.toNat < id.toNat :=
      hid ▸ lt_idBound (mem_connections_withoutLink.mpr (hnewest newest hlast))
    rcases eq_or_lt_of_getLast? h hlast hc with rfl | hc
    · exact hlt
    · exact Nat.lt_trans hc hlt

theorem pairwise_made_iff (h : Numbered [] d.scene.connections) :
    (d.made es).Pairwise (·.id.toNat < ·.id.toNat) ↔ d.KeepsNewest es := by
  induction es using List.reverseRecOn with
  | nil => exact iff_of_true .nil keepsNewest_nil
  | append_singleton es e ih =>
      rw [d.made_concat, List.pairwise_append, keepsNewest_concat, ← ih]
      -- so far the ids have gone up, and the last edit decides whether they still do
      refine and_congr_right fun hup ↦ ?_
      obtain ⟨kept, hsub, -, hmade⟩ := e.exists_leaves (d.run es)
      cases hc : e.made? (d.run es) with
      | none => simp
      | some c =>
          obtain ⟨rfl, hid⟩ := hmade c hc
          have hiff := forall_lt_iff hup (h.run es).sublist hid
          simpa using hiff

/-- Whatever is done to a new scene, its connections stand in the order in which they were made, and that is
the order of their ids. A new one gets an id above those of all that stay beside it, and that id has been
given before exactly if some id has that is above all of theirs. So the ids that are given go up exactly as
long as each new connection finds the one before it there, in another slot than its own. -/
theorem numbered_made (name : String) (start : Uid) (pool : UidPool) (es : List SceneEdit) :
    let d : Draft := ⟨.create name start, pool⟩
    Numbered (d.made es) (d.run es).scene.connections ∧
      (∀ slot target sourceAnchor targetAnchor id s',
        (d.run es).scene.connect slot target sourceAnchor targetAnchor = .ok (id, s') →
        (∀ c ∈ s'.connections, c.slot ≠ slot → c.id.toNat < id.toNat) ∧
          ((∃ c ∈ d.made es, c.id = id) ↔ ∃ c ∈ d.made es,
            ∀ c' ∈ (d.run es).scene.connections, c'.slot ≠ slot → c'.id.toNat < c.id.toNat)) ∧
      ((d.made es).Pairwise (·.id.toNat < ·.id.toNat) ↔ d.KeepsNewest es) := by
  intro d
  have hnew : Numbered [] d.scene.connections := .nil
  have hnumbered := hnew.run es
  refine ⟨hnumbered, ?_, pairwise_made_iff hnew⟩
  intro slot target sourceAnchor targetAnchor id s' hconnect
  obtain ⟨-, -, hid, rfl⟩ := of_connect hconnect
  constructor
  · intro c hc hne
    rcases List.mem_append.mp hc with hc | hc
    · exact hid ▸ lt_idBound hc
    · exact absurd (congrArg Connection.slot (List.mem_singleton.mp hc)) hne
  · have hgiven := hnumbered.exists_id_eq_idBound_iff ((d.run es).scene.withoutLink slot).connections
    simpa only [← hid, ConnectionId.toNat_inj, mem_connections_withoutLink, and_imp] using hgiven

/-- A link from the start, and another one in its place. -/
def relinking : List SceneEdit :=
  [.addBubble (.story "here"), .addBubble (.story "there"),
    .connect ⟨⟨0⟩, .next⟩ ⟨1⟩ .south .north, .connect ⟨⟨0⟩, .next⟩ ⟨2⟩ .south .north]

/-- The ids that are given in a new scene do not always go up: both of these links get the first. -/
theorem not_forall_pairwise_made :
    ¬ ∀ (name : String) (start : Uid) (pool : UidPool) (es : List SceneEdit),
      (Draft.made ⟨.create name start, pool⟩ es).Pairwise (·.id.toNat < ·.id.toNat) := by
  intro h
  exact absurd (h "startup" ⟨0⟩ (UidPool.empty.insert ⟨0⟩) relinking) (by decide)

end Draft

end StoryGraph
