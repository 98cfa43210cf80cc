import Mathlib.Data.List.Nodup
import Mathlib.Data.List.Perm.Subperm
import Mathlib.Order.Bounds.Defs
import StoryGraph.Proofs.Scene.Reachable

/-!
# The search as a loop

The search holds what it has seen and a queue of what waits. In each turn it takes a uid from the front of the
queue and meets the targets of its links, one after the other: a target that it has not seen before is seen,
and waits at the end. A uid waits once for each time that it is seen, which is once, so the loop has as many
turns as there are uids to see. Nothing is asked of the scene: a link may end at an option or at nothing, two
bubbles may share a uid, and links may go round.
-/

namespace StoryGraph.Scene

/-! ## One turn -/

/-- What a search has seen, and what waits to have its links followed. -/
structure Search where
  seen : List Uid
  waiting : List Uid

namespace Search

/-- Come to a uid: unless it has been seen, it is now, and it waits. -/
def meet (t : Search) (u : Uid) : Search :=
  if u ∈ t.seen then t else ⟨t.seen ++ [u], t.waiting ++ [u]⟩

/-- One turn of the loop, if something waits. -/
def turn? (s : Scene) (t : Search) : Option Search :=
  match t.waiting with
  | [] => none
  | u :: waiting => some (((s.links u).map (·.target)).foldl meet ⟨t.seen, waiting⟩)

/-- `Ends s n t seen`: the loop ends after `n` turns, and this is what it has seen. -/
inductive Ends (s : Scene) : Nat → Search → List Uid → Prop
  | stop {t : Search} (h : t.turn? s = none) : Ends s 0 t t.seen
  | turn {n : Nat} {t t' : Search} {seen : List Uid} (h : t.turn? s = some t')
      (rest : Ends s n t' seen) : Ends s (n + 1) t seen

end Search

/-- Only which uids have been seen matters, not in which order they are held. -/
theorem unseen_congr {seen seen' us : List Uid} (h : ∀ u, u ∈ seen ↔ u ∈ seen') :
    unseen seen us = unseen seen' us := by
  induction us generalizing seen seen' with
  | nil => rfl
  | cons u us ih =>
      have hcons : ∀ v, v ∈ u :: seen ↔ v ∈ u :: seen' := by
        intro v
        rw [List.mem_cons, List.mem_cons, h v]
      simp only [unseen, h u, ih h, ih hcons]

theorem nodup_unseen (seen us : List Uid) : (unseen seen us).Nodup := by
  induction us generalizing seen with
  | nil => exact .nil
  | cons u us ih =>
      rw [unseen]
      split
      · exact ih seen
      · exact List.nodup_cons.mpr ⟨fun hu ↦ not_mem_of_mem_unseen hu List.mem_cons_self, ih (u :: seen)⟩

theorem nodup_append_unseen {seen : List Uid} (h : seen.Nodup) (us : List Uid) :
    (seen ++ unseen seen us).Nodup :=
  h.append (nodup_unseen seen us) fun _ hu hu' ↦ not_mem_of_mem_unseen hu' hu

/-- A search that meets some uids sees those anew that it has not seen. -/
theorem foldl_meet (us seen waiting : List Uid) :
    us.foldl Search.meet ⟨seen, waiting⟩ = ⟨seen ++ unseen seen us, waiting ++ unseen seen us⟩ := by
  induction us generalizing seen waiting with
  | nil => simp [unseen]
  | cons u us ih =>
      rw [List.foldl_cons, Search.meet, unseen]
      split
      · exact ih seen waiting
      · have hseen : unseen (seen ++ [u]) us = unseen (u :: seen) us :=
          unseen_congr fun v ↦ by rw [List.mem_append, List.mem_singleton, List.mem_cons, or_comm]
        rw [ih, hseen, List.append_assoc, List.append_assoc, List.singleton_append]

theorem turn?_cons (s : Scene) (seen : List Uid) (u : Uid) (waiting : List Uid) :
    (Search.mk seen (u :: waiting)).turn? s =
      some ⟨seen ++ unseen seen ((s.links u).map (·.target)),
        waiting ++ unseen seen ((s.links u).map (·.target))⟩ := by
  rw [← foldl_meet]
  rfl

/-! ## All turns -/

variable {s : Scene}

theorem nodup_explore {seen : List Uid} (h : seen.Nodup) (waiting : List Uid) :
    (s.explore seen waiting).Nodup := by
  induction seen, waiting using explore.induct s with
  | case1 seen =>
      rw [explore_nil]
      exact h
  | case2 seen u waiting found ih =>
      rw [explore_cons]
      exact ih (nodup_append_unseen h _)

/-- The loop ends. It has one turn for each uid that waits, and one for each that it is still to see. -/
theorem exists_ends_explore (s : Scene) (seen waiting : List Uid) :
    ∃ n, n + seen.length = waiting.length + (s.explore seen waiting).length ∧
      Search.Ends s n ⟨seen, waiting⟩ (s.explore seen waiting) := by
  induction seen, waiting using explore.induct s with
  | case1 seen =>
      refine ⟨0, ?_, ?_⟩
      · rw [explore_nil, List.length_nil]
      · rw [explore_nil]
        exact .stop (t := ⟨seen, []⟩) rfl
  | case2 seen u waiting found ih =>
      obtain ⟨n, hlength, hends⟩ := ih
      rw [explore_cons]
      refine ⟨n + 1, ?_, .turn (turn?_cons s seen u waiting) hends⟩
      simp only [found, List.length_append, List.length_cons] at hlength ⊢
      omega

theorem ends_reachable {start : Bubble} (hstart : s.start? = some start) :
    Search.Ends s s.reachable.length ⟨[start.uid], [start.uid]⟩ s.reachable := by
  obtain ⟨n, hlength, hends⟩ := s.exists_ends_explore [start.uid] [start.uid]
  simp only [reachable, hstart]
  have hn : n = (s.explore [start.uid] [start.uid]).length := by
    simp only [List.length_singleton] at hlength
    omega
  exact hn ▸ hends

theorem nodup_reachable (s : Scene) : s.reachable.Nodup := by
  unfold reachable
  split
  · exact .nil
  · exact nodup_explore (List.nodup_singleton _) _

/-- Every uid that is reached but the first is the target of a connection. -/
theorem length_reachable_le (s : Scene) : s.reachable.length ≤ s.connections.length + 1 := by
  cases hstart : s.start? with
  | none => simp [reachable, hstart]
  | some start =>
      have hsub : s.reachable ⊆ start.uid :: s.targets := by
        intro u hu
        have hleads := (mem_reachable_iff hstart).mp hu
        rcases hleads.cases_tail with rfl | ⟨v, -, c, hc, rfl⟩
        · exact List.mem_cons_self
        · exact List.mem_cons_of_mem _ (mem_targets_of_mem_links hc)
      have hle := (s.nodup_reachable.subperm hsub).length_le
      rwa [List.length_cons, targets, List.length_map] at hle

/-- Where there is no start nothing can be reached. From the first start the search comes to an end, with a turn
for each uid that it reaches, once each, and there are no more of them than connections and one. They are the
least set that has the uid of that start and, with each uid, the targets of its links. -/
theorem isLeast_reachable (s : Scene) :
    (s.start? = none → s.reachable = []) ∧
      ∀ start, s.start? = some start →
        Search.Ends s s.reachable.length ⟨[start.uid], [start.uid]⟩ s.reachable ∧
          s.reachable.Nodup ∧ s.reachable.length ≤ s.connections.length + 1 ∧
          IsLeast {us : Set Uid | start.uid ∈ us ∧ ∀ u ∈ us, ∀ c ∈ s.links u, c.target ∈ us}
            {u | u ∈ s.reachable} := by
  refine ⟨fun hnone ↦ by simp only [reachable, hnone], ?_⟩
  intro start hstart
  refine ⟨ends_reachable hstart, s.nodup_reachable, s.length_reachable_le, ⟨?_, ?_⟩, ?_⟩
  · exact (mem_reachable_iff hstart).mpr .refl
  · intro u hu c hc
    exact (mem_reachable_iff hstart).mpr (((mem_reachable_iff hstart).mp hu).tail ⟨c, hc, rfl⟩)
  · rintro us ⟨hfirst, hclosed⟩ u hu
    replace hu : s.LeadsTo start.uid u := (mem_reachable_iff hstart).mp hu
    induction hu with
    | refl => exact hfirst
    | tail _ hlink ih =>
        obtain ⟨c, hc, rfl⟩ := hlink
        exact hclosed _ ih c hc

/-- A scene that nobody repaired. Two bubbles have the uid 1, and there are two starts. The link of 1 ends at an
option, that of the option where nothing is, and from there one goes back to 1. -/
def thicket : Scene where
  name := "thicket"
  bubbles :=
    [⟨⟨1⟩, "", 0, false, .story "in"⟩, ⟨⟨0⟩, "", 0, false, .start⟩,
      ⟨⟨1⟩, "", 0, false, .choice [⟨⟨5⟩, "deeper"⟩]⟩, ⟨⟨2⟩, "", 0, false, .choice [⟨⟨7⟩, "round"⟩]⟩,
      ⟨⟨3⟩, "", 0, false, .start⟩, ⟨⟨4⟩, "", 0, false, .story "out"⟩]
  connections :=
    [⟨⟨0⟩, ⟨⟨0⟩, .next⟩, ⟨1⟩, .south, .north⟩, ⟨⟨1⟩, ⟨⟨1⟩, .next⟩, ⟨7⟩, .south, .north⟩,
      ⟨⟨1⟩, ⟨⟨0⟩, .next⟩, ⟨4⟩, .south, .north⟩, ⟨⟨2⟩, ⟨⟨7⟩, .next⟩, ⟨42⟩, .south, .north⟩,
      ⟨⟨3⟩, ⟨⟨42⟩, .next⟩, ⟨1⟩, .south, .north⟩, ⟨⟨4⟩, ⟨⟨5⟩, .next⟩, ⟨4⟩, .south, .north⟩]

/-- Four uids are reached, of which two belong to no bubble. -/
theorem isLeast_reachable_thicket :
    Search.Ends thicket 4 ⟨[⟨0⟩], [⟨0⟩]⟩ [⟨0⟩, ⟨1⟩, ⟨7⟩, ⟨42⟩] ∧
      IsLeast {us : Set Uid | ⟨0⟩ ∈ us ∧ ∀ u ∈ us, ∀ c ∈ thicket.links u, c.target ∈ us}
        {u | u ∈ [(⟨0⟩ : Uid), ⟨1⟩, ⟨7⟩, ⟨42⟩]} := by
  have hreach : thicket.reachable = [⟨0⟩, ⟨1⟩, ⟨7⟩, ⟨42⟩] := by cbv
  obtain ⟨hends, -, -, hleast⟩ := (isLeast_reachable thicket).2 ⟨⟨0⟩, "", 0, false, .start⟩ rfl
  rw [hreach] at hends hleast
  exact ⟨hends, hleast⟩

end StoryGraph.Scene
