import StoryGraph.Proofs.Scene.Pool

/-!
# Allocation

A pool is called to allocate a uid, to claim one that is given, or to release one. Whatever has been called
before, a pool with a free uid allocates the smallest, which is the first gap of those in use. A uid goes into the
pool when a call takes it, which only a free one is, and it goes when it is released, so between two calls that
take one uid it has been released.
-/

namespace StoryGraph

inductive PoolCall where
  | allocate
  | claim (uid : Uid)
  | release (uid : Uid)
deriving DecidableEq, Repr

/-- What a call answers, with the uid that it takes if it takes one, and the pool that it leaves behind. -/
def PoolCall.apply (p : UidPool) : PoolCall → Except Error (Option Uid) × UidPool
  | .allocate =>
      match p.allocate with
      | .ok (uid, p') => (.ok (some uid), p')
      | .error e => (.error e, p)
  | .claim uid =>
      match p.claim uid with
      | .ok p' => (.ok (some uid), p')
      | .error e => (.error e, p)
  | .release uid => (.ok none, p.erase uid)

namespace UidPool

/-- What calls leave behind, one after the other, also where one of them fails. -/
def run (p : UidPool) : List PoolCall → UidPool
  | [] => p
  | call :: calls => (call.apply p).2.run calls

variable {p : UidPool} {u v : Uid} {calls : List PoolCall} {call : PoolCall}

theorem run_append (p : UidPool) (calls calls' : List PoolCall) :
    p.run (calls ++ calls') = (p.run calls).run calls' := by
  induction calls generalizing p with
  | nil => rfl
  | cons call calls ih => exact ih _

/-! ## The scan -/

/-- The scan for the smallest uid that is not in use, with a candidate of 32 bits: none where the candidate
would have to go beyond them. -/
def candidate? (candidate : UInt32) : List Uid → Option UInt32
  | [] => some candidate
  | u :: us =>
      if u.val ≠ candidate then some candidate
      else if candidate.toNat + 1 < UInt32.size then candidate? (candidate + 1) us
      else none

/-- The candidate goes beyond 32 bits only where the first gap does. -/
theorem candidate?_eq_some_iff (candidate c : UInt32) (us : List Uid) :
    candidate? candidate us = some c ↔ Uid.ofNat? (firstGap candidate.toNat us) = some ⟨c⟩ := by
  have hself (c' : UInt32) : Uid.ofNat? c'.toNat = some ⟨c'⟩ := by
    rw [Uid.ofNat?, if_pos c'.toNat_lt]
    exact congrArg (some ∘ Uid.mk) c'.ofNat_toNat
  induction us generalizing candidate with
  | nil => simp [candidate?, firstGap, hself]
  | cons u us ih =>
      rw [candidate?, firstGap]
      by_cases heq : u.val = candidate
      · have hnat : u.toNat = candidate.toNat := congrArg UInt32.toNat heq
        rw [if_neg (not_not_intro heq), if_pos hnat]
        split
        · rename_i hroom
          have hsucc : (candidate + 1).toNat = candidate.toNat + 1 := by
            rw [UInt32.toNat_add]
            exact Nat.mod_eq_of_lt hroom
          simpa only [hsucc] using ih (candidate + 1)
        · rename_i hfull
          have hle := le_firstGap (candidate.toNat + 1) us
          simp [Uid.ofNat?, show ¬ firstGap (candidate.toNat + 1) us < UInt32.size by omega]
      · have hnat : ¬ u.toNat = candidate.toNat := mt UInt32.toNat_inj.mp heq
        rw [if_pos heq, if_neg hnat, hself]
        simp

/-! ## One call -/

/-- What a call can do: take a uid that is free, fail, or release one. -/
theorem apply_cases (p : UidPool) (call : PoolCall) :
    (∃ u p', (∀ w, call ≠ .release w) ∧ call.apply p = (.ok (some u), p') ∧ u ∉ p ∧
      ∀ v, v ∈ p' ↔ v = u ∨ v ∈ p) ∨
    (∃ e, (∀ w, call ≠ .release w) ∧ call.apply p = (.error e, p)) ∨
    ∃ u, call = .release u ∧ call.apply p = (.ok none, p.erase u) := by
  cases call with
  | allocate =>
      cases hallocate : p.allocate with
      | error e => exact .inr (.inl ⟨e, nofun, by simp only [PoolCall.apply, hallocate]⟩)
      | ok taken =>
          obtain ⟨u, p'⟩ := taken
          obtain ⟨hfree, hmem⟩ := of_allocate hallocate
          exact .inl ⟨u, p', nofun, by simp only [PoolCall.apply, hallocate], hfree, hmem⟩
  | claim u =>
      cases hclaim : p.claim u with
      | error e => exact .inr (.inl ⟨e, nofun, by simp only [PoolCall.apply, hclaim]⟩)
      | ok p' =>
          obtain ⟨-, hfree, hmem⟩ := of_claimAll hclaim
          refine .inl ⟨u, p', nofun, by simp only [PoolCall.apply, hclaim], hfree u List.mem_cons_self, ?_⟩
          intro v
          rw [hmem v, List.mem_singleton]
  | release u => exact .inr (.inr ⟨u, rfl, rfl⟩)

/-- What is in use behind a call: the uid that it takes, and all that was in use unless it releases it. -/
theorem mem_apply_iff :
    v ∈ (call.apply p).2 ↔ (call.apply p).1 = .ok (some v) ∨ v ∈ p ∧ call ≠ .release v := by
  rcases apply_cases p call with ⟨u, p', hother, happly, -, hmem⟩ | ⟨e, hother, happly⟩ | ⟨u, rfl, happly⟩
  · simp [happly, hmem v, hother v, eq_comm]
  · simp [happly, hother v]
  · simp [happly, eq_comm]

/-- A call takes only what is free. -/
theorem not_mem_of_apply (h : (call.apply p).1 = .ok (some u)) : u ∉ p := by
  rcases apply_cases p call with ⟨w, p', -, happly, hfree, -⟩ | ⟨e, -, happly⟩ | ⟨w, -, happly⟩
  · obtain rfl : w = u := by simpa [happly] using h
    exact hfree
  · simp [happly] at h
  · simp [happly] at h

/-! ## Any calls -/

/-- What is in use behind calls, and was not taken by them, was in use before. Nothing of it has been released
since. -/
theorem mem_run_iff : v ∈ p.run calls ↔ v ∈ p ∧ .release v ∉ calls ∨
    ∃ before call after, calls = before ++ call :: after ∧
      (call.apply (p.run before)).1 = .ok (some v) ∧ .release v ∉ after := by
  induction calls generalizing p with
  | nil => simp [run]
  | cons call calls ih =>
      rw [run, ih, mem_apply_iff]
      constructor
      · rintro (⟨htaken | ⟨hv, hother⟩, hkept⟩ | ⟨before, taking, after, rfl, htaken, hkept⟩)
        · exact .inr ⟨[], call, calls, rfl, htaken, hkept⟩
        · exact .inl ⟨hv, List.not_mem_cons_of_ne_of_not_mem hother.symm hkept⟩
        · exact .inr ⟨call :: before, taking, after, rfl, htaken, hkept⟩
      · rintro (⟨hv, hkept⟩ | ⟨before, taking, after, heq, htaken, hkept⟩)
        · obtain ⟨hother, hkept⟩ := not_or.mp (mt List.mem_cons.mpr hkept)
          exact .inl ⟨.inr ⟨hv, Ne.symm hother⟩, hkept⟩
        · cases before with
          | nil =>
              obtain ⟨rfl, rfl⟩ := List.cons.inj heq
              exact .inl ⟨.inl htaken, hkept⟩
          | cons first before =>
              obtain ⟨rfl, rfl⟩ := List.cons.inj heq
              exact .inr ⟨before, taking, after, rfl, htaken, hkept⟩

/-- Whatever calls have been made, as long as a uid is free the candidate of the scan stays within 32 bits, and
allocation takes the smallest that is free and puts it into the pool with those in use. Of a pool that was empty at
first, those are in use that have been taken and not released since; and from any pool, a call that takes a uid
which another has taken before finds it released between the two. -/
theorem allocation_exact (p : UidPool) :
    (∀ calls v, v ∉ p.run calls → ∃ u q, (p.run calls).allocate = .ok (u, q) ∧
      candidate? 0 (p.run calls).uids = some u.val ∧ u ∉ p.run calls ∧ (∀ w, w ∉ p.run calls → u ≤ w) ∧
      ∀ w, w ∈ q ↔ w = u ∨ w ∈ p.run calls) ∧
    (∀ calls v, v ∈ empty.run calls ↔ ∃ before call after, calls = before ++ call :: after ∧
      (call.apply (empty.run before)).1 = .ok (some v) ∧ .release v ∉ after) ∧
    ∀ (before between : List PoolCall) (first second : PoolCall) (u : Uid),
      (first.apply (p.run before)).1 = .ok (some u) →
      (second.apply (p.run (before ++ first :: between))).1 = .ok (some u) → .release u ∈ between := by
  refine ⟨?_, ?_, ?_⟩
  · intro calls v hv
    obtain ⟨u, q, hallocate, hfresh, hleast⟩ := exists_allocate_of_not_mem hv
    obtain ⟨hfree, hmem⟩ := of_allocate hallocate
    exact ⟨u, q, hallocate, (candidate?_eq_some_iff 0 _ _).mpr hfresh, hfree, hleast, hmem⟩
  · intro calls v
    rw [mem_run_iff]
    simp
  · intro before between first second u hfirst hsecond
    by_contra hkept
    have hmem : u ∈ p.run (before ++ first :: between) := by
      rw [run_append, run]
      exact mem_run_iff.mpr (.inl ⟨mem_apply_iff.mpr (.inl hfirst), hkept⟩)
    exact not_mem_of_apply hsecond hmem

/-- Uids that a file brings along with gaps between them, and some that are allocated and released again. -/
def ragged : List PoolCall :=
  [.claim ⟨0⟩, .claim ⟨5⟩, .claim ⟨2⟩, .claim ⟨4294967295⟩, .claim ⟨5⟩, .allocate, .allocate, .release ⟨0⟩,
    .allocate, .release ⟨3⟩, .release ⟨9⟩]

/-- The gap in the middle is the next to be taken. -/
theorem allocation_exact_ragged : ⟨3⟩ ∉ empty.run ragged ∧
    (∃ q, (empty.run ragged).allocate = .ok (⟨3⟩, q) ∧ candidate? 0 (empty.run ragged).uids = some 3 ∧
      ∀ w, w ∈ q ↔ w = ⟨3⟩ ∨ w ∈ empty.run ragged) ∧
    (PoolCall.release ⟨0⟩) ∈ [PoolCall.claim ⟨5⟩, .claim ⟨2⟩, .claim ⟨4294967295⟩, .claim ⟨5⟩, .allocate,
      .allocate, .release ⟨0⟩] := by
  obtain ⟨hallocates, -, htwice⟩ := allocation_exact empty
  have hfree : ⟨3⟩ ∉ empty.run ragged := by decide
  obtain ⟨u, q, hallocate, hcandidate, -, -, hmem⟩ := hallocates ragged ⟨3⟩ hfree
  obtain rfl : u = ⟨3⟩ := by
    have hfirst : candidate? 0 (empty.run ragged).uids = some 3 := by decide
    rw [hfirst] at hcandidate
    exact congrArg Uid.mk (Option.some.inj hcandidate).symm
  refine ⟨hfree, ⟨q, hallocate, hcandidate, hmem⟩, ?_⟩
  exact htwice [] _ (.claim ⟨0⟩) .allocate ⟨0⟩ (by decide) (by decide)

end UidPool

end StoryGraph
