import StoryGraph.Scene.Basic

/-!
# Labels

A label policy says which bubbles of a scene need a label, and what the labels are called. Both depend
on the sequence in which the bubbles are emitted, and on the bubbles that emission has forced to have
one. A bubble needs a label if several connections end at it, if it is locked, if it is forced, or if
the bubble before it comes later in the sequence and not right after it, unless that one is a choice.

Names are given along the sequence: the label that the author wrote, with underscores for spaces, or
else `bubble_` and the uid. Where labelled bubbles share a label, or a name is taken, the uid follows
after an underscore, as often as it takes.
-/

namespace StoryGraph

/-- What labels are decided by. -/
structure Labelling where
  scene : Scene
  sequence : List Uid
  /-- The bubbles that have to have a label in any case. -/
  forced : List Uid
deriving DecidableEq, Repr

namespace Labelling

/-! ## Which bubbles need a label -/

/-- The last position of a uid in a list. -/
def lastPosition? (uid : Uid) : List Uid → Option Nat
  | [] => none
  | u :: us =>
      match lastPosition? uid us with
      | some i => some (i + 1)
      | none => if u = uid then some 0 else none

/-- Whether a bubble comes later in the sequence than another, and not right after it. -/
def isFarAfter (l : Labelling) (source target : Uid) : Bool :=
  match lastPosition? source l.sequence, lastPosition? target l.sequence with
  | some i, some j => j + 1 < i
  | _, _ => false

/-- Whether a connection comes from a bubble after which its target cannot be emitted. -/
def comesFromFar (l : Labelling) (c : Connection) : Bool :=
  match l.scene.container? c.source with
  | none => false
  | some source => !(l.scene.bubble? source).any (·.isChoice) && l.isFarAfter source c.target

def needsLabel (l : Labelling) (uid : Uid) : Bool :=
  match l.scene.bubble? uid with
  | none => false
  | some b =>
      let incoming := l.scene.incoming uid
      1 < incoming.length || b.locked || uid ∈ l.forced || incoming.head?.any l.comesFromFar

/-- The uids of the sequence that need a label. -/
def labelled (l : Labelling) : List Uid := l.sequence.filter l.needsLabel

/-! ## What the labels are called -/

/-- The label that the author of a bubble wrote, with underscores for spaces. -/
def userLabel (l : Labelling) (uid : Uid) : String :=
  match l.scene.bubble? uid with
  | none => ""
  | some b => .ofList (b.label.toList.map fun c ↦ if c = ' ' then '_' else c)

/-- The name of a bubble that nothing stands against. -/
def baseName (l : Labelling) (uid : Uid) : String :=
  let label := l.userLabel uid
  if label = "" then "bubble_" ++ toString uid else label

def suffixed (name : String) (uid : Uid) : String := name ++ "_" ++ toString uid

/-- Whether several of the places to be named have the label of a uid. -/
def isShared (l : Labelling) (places : List Uid) (uid : Uid) : Bool :=
  let label := l.userLabel uid
  label ≠ "" && 1 < places.countP fun u ↦ l.userLabel u = label

/-- The name of a bubble as long as it is not taken. -/
def firstName (l : Labelling) (places : List Uid) (uid : Uid) : String :=
  if l.isShared places uid then suffixed (l.userLabel uid) uid else l.baseName uid

theorem length_lt_length_suffixed (name : String) (uid : Uid) :
    name.length < (suffixed name uid).length := by
  have : "_".length = 1 := rfl
  simp only [suffixed, String.length_append, this]
  omega

/-- Add the uid to a name until it is not taken. -/
def freeName (taken : List String) (uid : Uid) (name : String) : String :=
  if _h : name ∈ taken then freeName taken uid (suffixed name uid) else name
termination_by (taken.filter (name.length ≤ ·.length)).length
decreasing_by
  have hlt := length_lt_length_suffixed name uid
  have hsub : taken.filter (fun t ↦ (suffixed name uid).length ≤ t.length) =
      (taken.filter (fun t ↦ name.length ≤ t.length)).filter
        (fun t ↦ (suffixed name uid).length ≤ t.length) := by
    rw [List.filter_filter]
    congr 1
    funext t
    simp only [Bool.and_eq_decide, decide_eq_decide, decide_eq_true_eq]
    omega
  rw [hsub]
  refine List.length_filter_lt_length_iff_exists.mpr ⟨name, by simp [_h], ?_⟩
  simp only [decide_eq_true_eq]
  omega

/-- Name uids in order. The names given already are held backwards. -/
def nameAll (l : Labelling) (places : List Uid) (named : List (Uid × String)) :
    List Uid → List (Uid × String)
  | [] => named
  | u :: us =>
      let name := freeName (named.map (·.2)) u (l.firstName places u)
      l.nameAll places ((u, name) :: named) us

/-- The names of the uids that need a label. Where a uid has several, the first counts. -/
def names (l : Labelling) : List (Uid × String) :=
  let places := l.labelled
  l.nameAll places [] places

end Labelling

/-- A labelling with its names. -/
structure LabelPolicy extends Labelling where
  names : List (Uid × String)
  names_eq : names = toLabelling.names

namespace LabelPolicy

def ofLabelling (l : Labelling) : LabelPolicy := ⟨l, l.names, rfl⟩

/-- The policy in which no bubble is forced. -/
def create (scene : Scene) (sequence : List Uid) : LabelPolicy := ofLabelling ⟨scene, sequence, []⟩

/-- What the label of a bubble is called, or would be. -/
def labelName (p : LabelPolicy) (uid : Uid) : String := (p.names.lookup uid).getD (p.baseName uid)

/-- Force bubbles to have labels, and say whether that is new for one of them. -/
def force (p : LabelPolicy) (group : List Uid) : Bool × LabelPolicy :=
  match group.filter (· ∉ p.forced) with
  | [] => (false, p)
  | fresh => (true, ofLabelling { p.toLabelling with forced := fresh ++ p.forced })

end LabelPolicy

end StoryGraph
