import StoryGraph.Proofs.Script.Play

/-!
# Where a script is entered

A script is played from its beginning, and a scene from its start. What the scene is entered by is the link
of its start. The script begins with the bubble that comes first in the emission sequence; where that is
the start, the target of its link stands right behind it.
-/

namespace StoryGraph

/-- Where a story is entered. -/
inductive Entrance where
  | bubble (uid : Uid)
  /-- It ends before a bubble is met. -/
  | ended (ending : Ending)
deriving DecidableEq, Repr

/-- A scene is entered at the bubble that the link of its start leads to. -/
def Scene.entrance (s : Scene) : Entrance :=
  match s.start? with
  | none => .ended .stray
  | some start =>
      match s.link? ⟨start.uid, .next⟩ with
      | none => .ended .finished
      | some c => .bubble c.target

/-- The first bubble that is met in the code of a script, from a place on. The start, which does nothing,
is passed over. There may be so many turns. -/
def enter? (code : List Item) (start : Uid) : Nat → List Decision → List Item → Option Entrance
  | 0, _, _ => none
  | turns + 1, ds, rest =>
      match turn code ds rest with
      | .stop ending => some (.ended ending)
      | .go ds rest => enter? code start turns ds rest
      | .meet u rest => if u = start then enter? code start turns ds rest else some (.bubble u)

theorem enter?_succ {code rest : List Item} {start : Uid} {turns : Nat} {ds : List Decision}
    {e : Entrance} (h : enter? code start turns ds rest = some e) :
    enter? code start (turns + 1) ds rest = some e := by
  induction turns generalizing ds rest with
  | zero => simp [enter?] at h
  | succ turns ih =>
      rw [enter?] at h ⊢
      split at h
      · exact h
      · exact ih h
      · split at h
        · rename_i hu
          rw [if_pos hu]
          exact ih h
        · rename_i hu
          rw [if_neg hu]
          exact h

theorem enter?_mono {code rest : List Item} {start : Uid} {turns turns' : Nat} {ds : List Decision}
    {e : Entrance} (hle : turns ≤ turns') (h : enter? code start turns ds rest = some e) :
    enter? code start turns' ds rest = some e := by
  induction hle with
  | refl => exact h
  | step _ ih => exact enter?_succ ih

/-- `Enters code start ds rest e`: with enough turns, a script is entered at `e` from a place on. -/
def Enters (code : List Item) (start : Uid) (ds : List Decision) (rest : List Item) (e : Entrance) :
    Prop := ∃ turns, enter? code start turns ds rest = some e

namespace Enters

variable {code rest rest' : List Item} {start u : Uid} {ds ds' : List Decision} {e e' : Entrance}

theorem unique (h : Enters code start ds rest e) (h' : Enters code start ds rest e') : e = e' := by
  obtain ⟨turns, h⟩ := h
  obtain ⟨turns', h'⟩ := h'
  have hmax := enter?_mono (Nat.le_max_left turns turns') h
  rw [enter?_mono (Nat.le_max_right turns turns') h'] at hmax
  exact (Option.some.inj hmax).symm

theorem go (hturn : turn code ds rest = .go ds' rest') (h : Enters code start ds' rest' e) :
    Enters code start ds rest e := by
  obtain ⟨turns, henter⟩ := h
  exact ⟨turns + 1, by rw [enter?, hturn]; exact henter⟩

theorem stop {ending : Ending} (hturn : turn code ds rest = .stop ending) :
    Enters code start ds rest (.ended ending) := ⟨1, by rw [enter?, hturn]⟩

theorem pass (h : Enters code start ds rest e) : Enters code start ds (.enter start :: rest) e := by
  obtain ⟨turns, henter⟩ := h
  exact ⟨turns + 1, by rw [enter?, turn]; simpa using henter⟩

theorem meet (hu : u ≠ start) : Enters code start ds (.enter u :: rest) (.bubble u) :=
  ⟨1, by rw [enter?, turn]; simp [hu]⟩

/-- A label in front of a bubble is passed over. -/
theorem heading {p : LabelPolicy} (h : Enters code start ds (.enter u :: rest) e) :
    Enters code start ds (p.heading u ++ rest) e := by
  unfold LabelPolicy.heading
  split
  · exact go rfl (go rfl h)
  · exact h

end Enters

/-- `EntersAt code start e`: a script is entered at `e` from its beginning, whatever is decided. -/
def EntersAt (code : List Item) (start : Uid) (e : Entrance) : Prop :=
  ∀ ds, Enters code start ds code e

theorem EntersAt.unique {code : List Item} {start : Uid} {e e' : Entrance}
    (h : EntersAt code start e) (h' : EntersAt code start e') : e = e' := (h []).unique (h' [])

namespace FinalPass

variable {p : LabelPolicy} {code : List Item} {emitted : List Uid} (h : FinalPass p code emitted)
  {start : Bubble} {first : Uid} {others : List Uid}
  (hsequence : p.scene.sequence = first :: others)

include h hsequence

/-- A script whose start comes first is entered where the scene is. -/
theorem entersAt_of_eq_start (hstart : p.scene.start? = some start) (hfirst : first = start.uid) :
    EntersAt code start.uid p.scene.entrance := by
  intro ds
  subst hfirst
  obtain ⟨hmem, hisStart⟩ := h.wellFormed.start?_eq_some_iff.mp hstart
  have hemits := h.emits
  rw [h.sequence, hsequence, List.map_cons] at hemits
  rcases hemits.of_turn (h.wellFormed.bubble?_uid hmem) with ⟨hin, -⟩ | ⟨-, body, rfl, hbody⟩
  · simp at hin
  · rw [Bubble.parts_of_isStart hisStart] at hbody
    refine .heading (.pass ?_)
    rw [Scene.entrance, hstart]
    cases hbody with
    | step firstPart rest =>
        cases firstPart with
        | entryFinish hlink =>
            simp only [hlink]
            exact .stop rfl
        | @entry _ _ c hlink =>
            simp only [hlink]
            obtain ⟨b, hb, -, -⟩ := h.wellFormed.exists_target_of_link? hlink
            have hne : c.target ≠ start.uid :=
              h.wellFormed.target_ne_of_isStart (Scene.mem_connections_of_link? hlink) hmem hisStart
            rcases rest.of_turn hb with ⟨hin, -⟩ | ⟨-, body', rfl, -⟩
            · simp [hne] at hin
            · exact .heading (.meet hne)

/-- A script that begins with another bubble is entered there. -/
theorem entersAt_of_ne_start (hfirst : first ≠ start.uid) :
    EntersAt code start.uid (.bubble first) := by
  intro ds
  have hmem : first ∈ p.scene.sequence := hsequence ▸ List.mem_cons_self
  obtain ⟨b, hb, rfl⟩ := Scene.mem_sequence.mp hmem
  have hemits := h.emits
  rw [h.sequence, hsequence, List.map_cons] at hemits
  rcases hemits.of_turn (h.wellFormed.bubble?_uid hb) with ⟨hin, -⟩ | ⟨-, body, rfl, -⟩
  · simp at hin
  · exact .heading (.meet hfirst)

end FinalPass

end StoryGraph
