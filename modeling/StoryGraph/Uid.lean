/-!
# Uids and the pool they come from

A uid names a bubble or a choice option. A `UidPool` is the set of uids in use, kept as an ascending
list, so that two pools with the same members are equal. The smallest uid that is not in use is the
first gap of that list.
-/

namespace StoryGraph

/-- The name of a bubble or of a choice option. -/
structure Uid where
  val : UInt32
deriving DecidableEq, Repr, Inhabited

namespace Uid

instance : LT Uid := ⟨fun a b ↦ a.val < b.val⟩
instance : LE Uid := ⟨fun a b ↦ a.val ≤ b.val⟩

instance (a b : Uid) : Decidable (a < b) := inferInstanceAs (Decidable (a.val < b.val))
instance (a b : Uid) : Decidable (a ≤ b) := inferInstanceAs (Decidable (a.val ≤ b.val))

/-- A uid as a number below `2 ^ 32`. -/
def toNat (u : Uid) : Nat := u.val.toNat

/-- The uid of a number below `2 ^ 32`. -/
def ofNat? (n : Nat) : Option Uid := if n < UInt32.size then some ⟨n.toUInt32⟩ else none

instance : ToString Uid := ⟨fun u ↦ u.toNat.repr⟩

theorem lt_iff_toNat_lt {a b : Uid} : a < b ↔ a.toNat < b.toNat := UInt32.lt_iff_toNat_lt

theorem le_iff_toNat_le {a b : Uid} : a ≤ b ↔ a.toNat ≤ b.toNat := UInt32.le_iff_toNat_le

theorem toNat_lt (u : Uid) : u.toNat < UInt32.size := u.val.toNat_lt

theorem toNat_inj {a b : Uid} : a.toNat = b.toNat ↔ a = b := by
  cases a; cases b; simp [toNat, UInt32.toNat_inj]

theorem lt_trans {a b c : Uid} (hab : a < b) (hbc : b < c) : a < c := by
  rw [lt_iff_toNat_lt] at *; omega

@[simp] theorem lt_irrefl (a : Uid) : ¬ a < a := by simp [lt_iff_toNat_lt]

theorem lt_of_not_lt_of_ne {a b : Uid} (h : ¬ a < b) (hne : a ≠ b) : b < a := by
  rw [lt_iff_toNat_lt] at *
  have : a.toNat ≠ b.toNat := fun he ↦ hne (toNat_inj.mp he)
  omega

end Uid

/-- Put a uid into its place in an ascending list; a uid that is there already stays as it is. -/
def insertAscending (u : Uid) : List Uid → List Uid
  | [] => [u]
  | v :: vs => if u < v then u :: v :: vs else if u = v then v :: vs else v :: insertAscending u vs

@[simp] theorem mem_insertAscending {u x : Uid} {l : List Uid} :
    x ∈ insertAscending u l ↔ x = u ∨ x ∈ l := by
  induction l with
  | nil => simp [insertAscending]
  | cons v vs ih =>
      simp only [insertAscending]
      split
      · simp
      · split
        · rename_i h; subst h; simp
        · simp [ih, or_left_comm]

theorem pairwise_insertAscending {u : Uid} {l : List Uid} (h : l.Pairwise (· < ·)) :
    (insertAscending u l).Pairwise (· < ·) := by
  induction l with
  | nil => simp [insertAscending]
  | cons v vs ih =>
      obtain ⟨hv, hvs⟩ := List.pairwise_cons.mp h
      simp only [insertAscending]
      split
      · rename_i hlt
        refine List.pairwise_cons.mpr ⟨fun x hx ↦ ?_, h⟩
        rcases List.mem_cons.mp hx with rfl | hx
        · exact hlt
        · exact Uid.lt_trans hlt (hv x hx)
      · split
        · exact h
        · rename_i hnlt hne
          refine List.pairwise_cons.mpr ⟨fun x hx ↦ ?_, ih hvs⟩
          rcases mem_insertAscending.mp hx with rfl | hx
          · exact Uid.lt_of_not_lt_of_ne hnlt hne
          · exact hv x hx

/-- The first number from `candidate` on that the ascending list does not name. -/
def firstGap (candidate : Nat) : List Uid → Nat
  | [] => candidate
  | u :: us => if u.toNat = candidate then firstGap (candidate + 1) us else candidate

/-- The uids in use. -/
structure UidPool where
  /-- The members, in ascending order. -/
  uids : List Uid
  ascending : uids.Pairwise (· < ·)
deriving DecidableEq, Repr

namespace UidPool

def empty : UidPool := ⟨[], .nil⟩

instance : Inhabited UidPool := ⟨empty⟩

instance : Membership Uid UidPool := ⟨fun p u ↦ u ∈ p.uids⟩

instance (u : Uid) (p : UidPool) : Decidable (u ∈ p) := inferInstanceAs (Decidable (u ∈ p.uids))

/-- The number of uids in use. -/
def size (p : UidPool) : Nat := p.uids.length

def insert (p : UidPool) (u : Uid) : UidPool :=
  ⟨insertAscending u p.uids, pairwise_insertAscending p.ascending⟩

def erase (p : UidPool) (u : Uid) : UidPool :=
  ⟨p.uids.filter (· ≠ u), p.ascending.filter _⟩

def eraseAll (p : UidPool) (us : List Uid) : UidPool := us.foldl erase p

@[simp] theorem not_mem_empty (u : Uid) : ¬ u ∈ empty := List.not_mem_nil

@[simp] theorem mem_insert {p : UidPool} {u x : Uid} : x ∈ p.insert u ↔ x = u ∨ x ∈ p :=
  mem_insertAscending

@[simp] theorem mem_erase {p : UidPool} {u x : Uid} : x ∈ p.erase u ↔ x ∈ p ∧ x ≠ u := by
  change x ∈ p.uids.filter _ ↔ x ∈ p.uids ∧ _
  simp

/-- The smallest uid that is not in use; there is none when all are. -/
def fresh? (p : UidPool) : Option Uid := Uid.ofNat? (firstGap 0 p.uids)

/-- Take the smallest uid that is not in use. -/
def allocate? (p : UidPool) : Option (Uid × UidPool) := p.fresh?.map fun u ↦ (u, p.insert u)

/-- Take a given uid, unless it is in use. -/
def claim? (p : UidPool) (u : Uid) : Option UidPool := if u ∈ p then none else some (p.insert u)

end UidPool

end StoryGraph
