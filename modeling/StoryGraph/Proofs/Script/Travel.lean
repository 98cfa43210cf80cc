import StoryGraph.Proofs.Script.Play

/-!
# Playing a script is going through its scene

From the beginning of the code of a bubble, the bubbles met in a script are those that the connections
of the scene lead to, with the same decisions. Since nothing is stranded, what stands behind a slot is
the end of the scene, a jump to the target, or the target itself; so each bubble is left for the right
one, by whatever way the script takes. The lemmas here follow a bubble from its mark to the mark of the
next one.
-/

namespace StoryGraph

namespace Emits

variable {p : LabelPolicy} {g g' : Progress} {parts : List Part} {code : List Item}

/-- An option of a choice is found, and what follows it is the code behind its slot. -/
theorem afterOption?_eq_some (hwf : p.scene.WellFormed) {level : Nat} {options : List ChoiceOption}
    (h : Emits p g (options.flatMap (·.parts level) ++ parts) code g') {index : Nat} {o : ChoiceOption}
    (ho : options[index]? = some o) :
    ∃ rest g₁ others, afterOption? level index code = some rest ∧ rest <:+ code ∧
      Emits p g₁ (.slot ⟨o.uid, .next⟩ (level + 2) :: others) rest g' := by
  induction options generalizing g code index with
  | nil => simp at ho
  | cons o' options ih =>
      obtain ⟨rest, rfl, hrest⟩ := h.of_item
      rw [afterOption?, if_neg (by omega), if_pos ⟨rfl, rfl⟩]
      cases index with
      | zero =>
          obtain rfl := Option.some.inj ho
          exact ⟨rest, g, _, rfl, List.suffix_cons _ rest, hrest⟩
      | succ index =>
          obtain ⟨block, later, g₁, rfl, hblock, hlater⟩ := hrest.of_slot hwf
          obtain ⟨found, g₂, others, hfound, hplace, hemits⟩ := ih hlater (by simpa using ho)
          refine ⟨found, g₂, others, ?_, ?_, hemits⟩
          · rw [if_neg (Nat.succ_ne_zero index), afterOption?_append hblock]
            exact hfound
          · exact hplace.trans ((List.suffix_append block later).trans (List.suffix_cons _ _))

/-- What is no option of a choice is not found. -/
theorem afterOption?_eq_none (hwf : p.scene.WellFormed) {level : Nat} {options : List ChoiceOption}
    (h : Emits p g (options.flatMap (·.parts level) ++ parts) code g') (hopens : Opens level parts)
    {index : Nat} (ho : options[index]? = none) : afterOption? level index code = none := by
  induction options generalizing g code index with
  | nil => exact StoryGraph.afterOption?_eq_none (h.nextLevel?_le hopens)
  | cons o' options ih =>
      obtain ⟨rest, rfl, hrest⟩ := h.of_item
      rw [afterOption?, if_neg (by omega), if_pos ⟨rfl, rfl⟩]
      cases index with
      | zero => simp at ho
      | succ index =>
          obtain ⟨block, later, g₁, rfl, hblock, hlater⟩ := hrest.of_slot hwf
          rw [if_neg (Nat.succ_ne_zero index), afterOption?_append hblock]
          exact ih hlater (by simpa using ho)

end Emits

/-- `Agrees p code k`: from wherever the code of a bubble begins, the first `k` bubbles met in a script
are those that the scene leads to. -/
def Agrees (p : LabelPolicy) (code : List Item) (k : Nat) : Prop :=
  ∀ u b rest ds, p.scene.bubble? u = some b → b.isStart = false → (.enter u :: rest) <:+ code →
    Plays code k ds (.enter u :: rest) (p.scene.travel k ds u)

namespace FinalPass

variable {p : LabelPolicy} {code : List Item} {emitted : List Uid} (h : FinalPass p code emitted)

include h

/-- A jump to a bubble arrives where its code begins. -/
theorem exists_afterLabel? {u : Uid} {b : Bubble} (hb : p.scene.bubble? u = some b)
    (hlabel : p.needsLabel u) :
    ∃ rest, afterLabel? (p.labelName u) code = some (.enter u :: rest) ∧
      (.enter u :: rest) <:+ code := by
  obtain rfl := Scene.uid_of_bubble? hb
  have hmem := Scene.mem_of_bubble? hb
  obtain ⟨level, found, hfound, hplace⟩ :=
    StoryGraph.exists_afterLabel? (h.mem_labelNames.mpr ⟨b, hmem, hlabel, rfl⟩)
  obtain ⟨u, b', rest, hb', hlabel', hname, rfl⟩ :=
    h.emits.of_label_suffix h.wellFormed (nested_roots _ _) hplace
  obtain rfl := Scene.uid_of_bubble? hb'
  obtain rfl := h.eq_of_name_eq hmem (Scene.mem_of_bubble? hb') hlabel hlabel' hname
  exact ⟨rest, hfound, (List.suffix_cons _ _).trans hplace⟩

variable {k : Nat} (hk : Agrees p code k) {ds : List Decision} {g : Progress} {rest : List Item}
  {parts : List Part} {level : Nat}

include hk

/-- Behind a slot the bubbles are met that its link leads to. -/
theorem plays_slot {slot : Slot} (hemits : Emits p g (.slot slot level :: parts) rest ⟨emitted, []⟩)
    (hplace : rest <:+ code) : Plays code k ds rest (p.scene.along (p.scene.travel k ds) slot) := by
  cases hemits with
  | step first later =>
      cases first with
      | finish hlink =>
          simp only [Scene.along, hlink]
          exact .stop rfl
      | jump hlink hlabel =>
          obtain ⟨b, hb, -, hstart⟩ := h.wellFormed.exists_target_of_link? hlink
          obtain ⟨target, hfound, htarget⟩ := h.exists_afterLabel? hb hlabel
          simp only [Scene.along, hlink]
          refine .go ?_ (hk _ b target ds hb hstart htarget)
          simp [turn, hfound]
      | strand =>
          have hnil := later.stranded_eq_nil rfl
          simp at hnil
      | @inline _ _ c hlink hlabel hnew =>
          obtain ⟨b, hb, -, hstart⟩ := h.wellFormed.exists_target_of_link? hlink
          simp only [Scene.along, hlink]
          rcases later.of_turn hb with ⟨hmem, -⟩ | ⟨-, body, rfl, -⟩
          · exact absurd hmem hnew
          · rw [LabelPolicy.heading, if_neg hlabel] at hplace ⊢
            exact hk c.target b body ds hb hstart hplace

/-- A condition is left by the slot of what is decided: its block comes next, or is passed over. -/
theorem plays_condition {b : Bubble} {expression : String} (hkind : b.kind = .condition expression)
    (hemits : Emits p g (b.parts level ++ parts) rest ⟨emitted, []⟩) (hplace : rest <:+ code) :
    Plays code k ds rest (p.scene.leave (p.scene.travel k) b ds) := by
  simp only [Bubble.parts, hkind] at hemits
  obtain ⟨later, rfl, hlater⟩ := hemits.of_item
  have hplace' := (List.suffix_cons _ later).trans hplace
  rcases ds with _ | ⟨holds | index, ds⟩ <;> simp only [Scene.leave, Bubble.exit?, hkind]
  · exact .stop rfl
  · cases holds with
    | true => exact .go rfl (h.plays_slot hk hlater hplace')
    | false =>
        obtain ⟨block, others, g₁, rfl, hblock, hothers⟩ := hlater.of_slot h.wellFormed
        obtain ⟨last, rfl, hlast⟩ := hothers.of_item
        have hfound : afterOtherwise? level (block ++ .line level .otherwise :: last) = some last := by
          rw [afterOtherwise?_append hblock, afterOtherwise?, if_neg (Nat.lt_irrefl level),
            if_pos ⟨rfl, rfl⟩]
        have hplace₂ := (List.suffix_cons _ last).trans ((List.suffix_append block _).trans hplace')
        refine .go ?_ (h.plays_slot hk hlast hplace₂)
        simp only [turn, hfound, Option.getD_some]
  · exact .stop rfl

/-- A choice is left by the slot of the option that is decided on. -/
theorem plays_choice {b : Bubble} {options : List ChoiceOption} (hkind : b.kind = .choice options)
    (hopens : Opens level parts) (hemits : Emits p g (b.parts level ++ parts) rest ⟨emitted, []⟩)
    (hplace : rest <:+ code) : Plays code k ds rest (p.scene.leave (p.scene.travel k) b ds) := by
  simp only [Bubble.parts, hkind] at hemits
  obtain ⟨later, rfl, hlater⟩ := hemits.of_item
  have hplace' := (List.suffix_cons _ later).trans hplace
  rcases ds with _ | ⟨holds | index, ds⟩ <;> simp only [Scene.leave, Bubble.exit?, hkind]
  · exact .stop rfl
  · exact .stop rfl
  · cases ho : options[index]? with
    | none =>
        have hnone := hlater.afterOption?_eq_none h.wellFormed hopens ho
        exact .stop (by simp only [turn, hnone])
    | some o =>
        obtain ⟨found, g₁, others, hfound, hsuffix, hfound'⟩ :=
          hlater.afterOption?_eq_some h.wellFormed ho
        refine .go ?_ (h.plays_slot hk hfound' (hsuffix.trans hplace'))
        simp only [turn, hfound]

/-- From its mark on, a bubble is left as it is in the scene. -/
theorem plays_body {b : Bubble} (hstart : b.isStart = false) (hopens : Opens level parts)
    (hemits : Emits p g (b.parts level ++ parts) rest ⟨emitted, []⟩) (hplace : rest <:+ code) :
    Plays code k ds rest (p.scene.leave (p.scene.travel k) b ds) := by
  cases hkind : b.kind with
  | start => simp [Bubble.isStart_iff.mpr hkind] at hstart
  | story text | action text =>
      simp only [Bubble.parts, hkind, List.append_assoc] at hemits
      obtain ⟨later, rfl, hlater⟩ := hemits.of_map_item
      have hexit : b.exit? ds = some (⟨b.uid, .next⟩, ds) := by simp [Bubble.exit?, hkind]
      simp only [Scene.leave, hexit]
      exact .text (h.plays_slot hk hlater ((List.suffix_append _ later).trans hplace))
  | condition expression => exact h.plays_condition hk hkind hemits hplace
  | choice options => exact h.plays_choice hk hkind hopens hemits hplace

omit hk in
/-- Any number of bubbles met in the script are those that the scene leads to. -/
theorem agrees (k : Nat) : Agrees p code k := by
  induction k with
  | zero => exact fun _ _ _ _ _ _ _ ↦ .meet_zero
  | succ k ih =>
      intro u b rest ds hb hstart hplace
      obtain ⟨b', level, g, others, hb', hopens, hemits⟩ :=
        h.emits.of_enter_suffix h.wellFormed (nested_roots _ _) hplace
      obtain rfl := Option.some.inj (hb.symm.trans hb')
      have hbody : Plays code k ds rest (p.scene.leave (p.scene.travel k) b ds) :=
        h.plays_body ih hstart hopens hemits ((List.suffix_cons _ rest).trans hplace)
      have htravel : p.scene.travel (k + 1) ds u =
          (u :: (p.scene.leave (p.scene.travel k) b ds).1,
            (p.scene.leave (p.scene.travel k) b ds).2) := by
        rw [Scene.travel, hb]
      rw [htravel]
      exact hbody.meet

end FinalPass

/-- The script of a well-formed scene does what the scene says: from where the code of a bubble begins,
and with any decisions, the bubbles met in the script are those that the connections lead to, in the
same order, and the script ends where they do. -/
theorem Scene.play_eq_travel_of_emit {s : Scene} (hs : s.WellFormed) {limit : Nat} {code : List Item}
    {p : LabelPolicy} (h : s.emit s.sequence limit = .ok (code, p)) {b : Bubble} (hb : b ∈ s.bubbles)
    (hstart : b.isStart = false) (ds : List Decision) (k : Nat) :
    ∃ turns, ∀ turns' ≥ turns,
      play code turns' k ds (codeFrom b.uid code) = some (s.travel k ds b.uid) := by
  obtain ⟨rfl, emitted, hpass⟩ := s.exists_finalPass hs h
  obtain ⟨rest, hfrom, hplace⟩ := codeFrom_eq_cons (hpass.mem_of_bubble hb)
  rw [hfrom]
  exact (hpass.agrees k b.uid b rest ds (hs.bubble?_uid hb) hstart hplace).exists_turns

theorem Scene.play_turningBack :
    turningBack.WellFormed ∧ ∃ code p, turningBack.emit turningBack.sequence 3 = .ok (code, p) ∧
      ∃ turns, ∀ turns' ≥ turns,
        play code turns' 5 [.branch false, .branch true] (codeFrom ⟨2⟩ code) =
          some ([⟨2⟩, ⟨3⟩, ⟨2⟩, ⟨3⟩], .finished) := by
  obtain ⟨code, p, h⟩ := exists_emit_turningBack
  have hplay := play_eq_travel_of_emit wellFormed_turningBack h (b := .create ⟨2⟩ (.story "walk"))
    (by decide) rfl [.branch false, .branch true] 5
  exact ⟨wellFormed_turningBack, code, p, h, hplay⟩

end StoryGraph
