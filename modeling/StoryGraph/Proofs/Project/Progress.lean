import StoryGraph.Proofs.Project.Compile
import StoryGraph.Proofs.Scene.Bounds
import StoryGraph.Proofs.Script.Depth

/-!
# Projects that compile

Ordering a scene fails only for a locked order that is close to the top, and emission only for a way that is
longer than the limit of depth allows. So a project compiles if its scenes are small for both.
-/

namespace StoryGraph

/-- `s.FitsIn limit`: no order of a scene can go over the top, and a limit of depth leaves room for all its
bubbles. -/
structure Scene.FitsIn (s : Scene) (limit : Nat) : Prop where
  few : s.connections.length < 2 ^ 63
  below : ∀ b ∈ s.bubbles, b.locked → b.isStart = false → b.order.toInt ≤ 2 ^ 63 - 1 - s.connections.length
  room : s.bubbles.length ≤ limit + 1

theorem Scene.fitsIn_iff {s : Scene} {limit : Nat} :
    s.FitsIn limit ↔ s.connections.length < 2 ^ 63 ∧
      (∀ b ∈ s.bubbles, b.locked → b.isStart = false →
        b.order.toInt ≤ 2 ^ 63 - 1 - s.connections.length) ∧
      s.bubbles.length ≤ limit + 1 :=
  ⟨fun h ↦ ⟨h.1, h.2, h.3⟩, fun ⟨h₁, h₂, h₃⟩ ↦ ⟨h₁, h₂, h₃⟩⟩

instance (s : Scene) (limit : Nat) : Decidable (s.FitsIn limit) := decidable_of_iff' _ Scene.fitsIn_iff

namespace Scene.WellFormed

variable {s : Scene} (h : s.WellFormed) {limit : Nat} (hfits : s.FitsIn limit)

include h hfits

theorem exists_computeOrder : ∃ count t, s.computeOrder = .ok (count, t) := by
  obtain ⟨_, _, -, -, hfails, -⟩ := h.orders_bounded hfits.few
  cases horder : s.computeOrder with
  | ok result => exact ⟨result.1, result.2, rfl⟩
  | error e =>
      obtain ⟨-, b, hb, hlocked, hno, -, hlt⟩ := hfails e horder
      have hle := hfits.below b hb hlocked hno
      omega

/-- Ordering keeps the bubbles and where connections lead, so that emission has the room that it needs. -/
theorem exists_emit_of_computeOrder {count : Nat} {t : Scene} (horder : s.computeOrder = .ok (count, t)) :
    ∃ r, t.emit t.sequence limit = .ok r := by
  refine exists_emit_of_length_le (h.computeOrder horder).resolves ?_
  obtain ⟨-, -, hshape⟩ := of_computeOrder horder
  have hlength : t.bubbles.length = s.bubbles.length := by
    simpa only [List.length_map] using congrArg List.length hshape
  exact hlength ▸ hfits.room

end Scene.WellFormed

namespace Project

variable {p q : Project} {options : Options}

theorem exists_compileScene {name : String} {s : Scene} (hs : p.scene? name = some s) (h : s.WellFormed)
    (hfits : s.FitsIn options.maxDepth.toNat) :
    ∃ script p', p.compileScene name options = (.ok script, p') := by
  obtain ⟨count, t, horder⟩ := h.exists_computeOrder hfits
  obtain ⟨⟨code, policy⟩, hemit⟩ := h.exists_emit_of_computeOrder hfits horder
  exact ⟨_, _, compileScene_eq_ok_iff.mpr ⟨s, count, t, code, policy, hs, horder, rfl, hemit, rfl⟩⟩

/-- Scenes that are there and small compile one after the other. -/
theorem Keeps.exists_compileScenes {names : List String} (h : p.Keeps q names) (hnodup : names.Nodup)
    (hnames : ∀ name ∈ names, ∃ s, p.scene? name = some s ∧ s.FitsIn options.maxDepth.toNat) :
    ∃ scripts p', q.compileScenes options names = (.ok scripts, p') := by
  induction names generalizing q with
  | nil => exact ⟨[], q, rfl⟩
  | cons name names ih =>
      obtain ⟨hname, hnodup⟩ := List.nodup_cons.mp hnodup
      obtain ⟨⟨s, hs, hfits⟩, hnames⟩ := List.forall_mem_cons.mp hnames
      have hs : q.scene? name = some s := (h.scene? name List.mem_cons_self).trans hs
      obtain ⟨script, p₁, hscene⟩ :=
        exists_compileScene hs (h.wellFormed s (List.mem_of_find?_eq_some hs)) hfits
      obtain ⟨scripts, p', hscenes⟩ := ih (h.compileScene hname hscene) hnodup hnames
      exact ⟨_, _, compileScenes_cons_eq_ok_iff.mpr ⟨script, p₁, scripts, hscene, hscenes, rfl⟩⟩

/-- A project compiles if its scenes are small. -/
theorem WellFormed.exists_compile (h : p.WellFormed) (options : Options)
    (hfits : ∀ s ∈ p.scenes, s.FitsIn options.maxDepth.toNat) :
    ∃ scripts p', p.compile options = (.ok scripts, p') := by
  refine h.keeps.exists_compileScenes h.nodup_names ?_
  intro name hname
  obtain ⟨s, hs, rfl⟩ := List.mem_map.mp hname
  have hsome : (p.scene? s.name).isSome := List.find?_isSome.mpr ⟨s, hs, by simp⟩
  obtain ⟨t, ht⟩ := Option.isSome_iff_exists.mp hsome
  exact ⟨t, ht, hfits t (List.mem_of_find?_eq_some ht)⟩

end Project

end StoryGraph
