import StoryGraph.Proofs.Script.Jumps

/-!
# Playing a script

A script is played from a place in it, that is from what is left of its code. What the author wrote does
nothing here. A jump goes to the first label of its name; a branch and a choice are decided from outside,
and their blocks are the lines below them that are deeper. To play is to take turns until so many bubbles
have been met, or until the script ends.

Beside it stands what it is to be compared with: to go from bubble to bubble by the connections of the
scene, with the same decisions.
-/

namespace StoryGraph

/-- What is decided where a script branches. -/
inductive Decision where
  | branch (holds : Bool)
  /-- The index of an option. -/
  | option (index : Nat)
deriving DecidableEq, Repr

/-- Why bubbles are met no longer. -/
inductive Ending where
  /-- There are as many as were asked for. -/
  | onward
  | finished
  /-- There is no decision left, or none that fits. -/
  | unanswered
  /-- There is nothing to go on with. -/
  | stray
deriving DecidableEq, Repr

/-! ## Scenes -/

/-- The slot by which a bubble is left, and the decisions to come. -/
def Bubble.exit? (b : Bubble) (ds : List Decision) : Option (Slot × List Decision) :=
  match b.kind, ds with
  | .start, ds | .story _, ds | .action _, ds => some (⟨b.uid, .next⟩, ds)
  | .condition _, .branch holds :: ds =>
      some (⟨b.uid, if holds then .whenTrue else .whenFalse⟩, ds)
  | .choice options, .option i :: ds => options[i]?.map fun o ↦ (⟨o.uid, .next⟩, ds)
  | _, _ => none

/-- What comes after a slot, where `travel` is what comes from a bubble on. -/
def Scene.along (s : Scene) (travel : Uid → List Uid × Ending) (slot : Slot) : List Uid × Ending :=
  match s.link? slot with
  | none => ([], .finished)
  | some c => travel c.target

/-- What comes after a bubble. -/
def Scene.leave (s : Scene) (travel : List Decision → Uid → List Uid × Ending) (b : Bubble)
    (ds : List Decision) : List Uid × Ending :=
  match b.exit? ds with
  | none => ([], .unanswered)
  | some (slot, ds) => s.along (travel ds) slot

/-- The first bubbles that the connections of a scene lead to from a bubble, itself the first of them, and
what comes after. -/
def Scene.travel (s : Scene) : Nat → List Decision → Uid → List Uid × Ending
  | 0, _, _ => ([], .onward)
  | k + 1, ds, u =>
      match s.bubble? u with
      | none => ([], .stray)
      | some b =>
          let (us, ending) := s.leave (s.travel k) b ds
          (u :: us, ending)

/-! ## Scripts -/

/-- What follows the first label of a name. -/
def afterLabel? (name : String) : List Item → Option (List Item)
  | [] => none
  | i :: rest => if i.label? = some name then some rest else afterLabel? name rest

/-- What follows the `otherwise` of a branch at a level, from behind the branch. -/
def afterOtherwise? (level : Nat) : List Item → Option (List Item)
  | [] => none
  | .line l st :: rest =>
      if level < l then afterOtherwise? level rest
      else if l = level ∧ st = .otherwise then some rest
      else none
  | .enter _ :: rest | .blank :: rest => afterOtherwise? level rest

/-- Whether a line offers an option. -/
def Statement.isOption : Statement → Bool
  | .option _ => true
  | _ => false

/-- What follows an option of a choice at a level, from behind the choice. -/
def afterOption? (level : Nat) : Nat → List Item → Option (List Item)
  | _, [] => none
  | index, .line l st :: rest =>
      if l ≤ level then none
      else if l = level + 1 ∧ st.isOption then
        if index = 0 then some rest else afterOption? level (index - 1) rest
      else afterOption? level index rest
  | index, .enter _ :: rest | index, .blank :: rest => afterOption? level index rest

/-- What follows the block below a line at a level. -/
def pastBlock (level : Nat) : List Item → List Item
  | [] => []
  | i :: rest =>
      if (nextLevel? (i :: rest)).any (level < ·) then pastBlock level rest else i :: rest

/-- What a turn comes to. -/
inductive Turn where
  /-- A bubble is met. -/
  | meet (uid : Uid) (rest : List Item)
  | go (ds : List Decision) (rest : List Item)
  | stop (ending : Ending)

/-- One turn in the code of a script. -/
def turn (code : List Item) (ds : List Decision) : List Item → Turn
  | [] => .stop .stray
  | .enter u :: rest => .meet u rest
  | .blank :: rest => .go ds rest
  | .line level st :: rest =>
      match st with
      | .text _ | .label _ => .go ds rest
      | .finish => .stop .finished
      | .goto name =>
          match afterLabel? name code with
          | none => .stop .stray
          | some rest => .go ds rest
      | .branch _ =>
          match ds with
          | .branch true :: ds => .go ds rest
          | .branch false :: ds => .go ds ((afterOtherwise? level rest).getD (pastBlock level rest))
          | _ => .stop .unanswered
      | .otherwise => .go ds (pastBlock level rest)
      | .choice =>
          match ds with
          | .option i :: ds =>
              match afterOption? level i rest with
              | none => .stop .unanswered
              | some rest => .go ds rest
          | _ => .stop .unanswered
      -- the block of an option does not run into the next one
      | .option _ => .stop .stray

/-- The first bubbles that are met in the code of a script, from a place on, and what comes after. There
may be so many turns. -/
def play (code : List Item) : Nat → Nat → List Decision → List Item → Option (List Uid × Ending)
  | 0, _, _, _ => none
  | turns + 1, k, ds, rest =>
      match turn code ds rest with
      | .stop ending => some ([], ending)
      | .go ds rest => play code turns k ds rest
      | .meet u rest =>
          match k with
          | 0 => some ([], .onward)
          | k + 1 => (play code turns k ds rest).map fun (us, ending) ↦ (u :: us, ending)

/-- The code from where the code of a bubble begins. -/
def codeFrom (u : Uid) (code : List Item) : List Item := code.dropWhile (· ≠ .enter u)

theorem codeFrom_eq_cons {u : Uid} {code : List Item} (h : .enter u ∈ code) :
    ∃ rest, codeFrom u code = .enter u :: rest ∧ (.enter u :: rest) <:+ code := by
  have hfrom : ∃ rest, codeFrom u code = .enter u :: rest := by
    unfold codeFrom
    induction code with
    | nil => simp at h
    | cons i code ih =>
        by_cases hi : i = .enter u
        · exact ⟨code, by rw [List.dropWhile_cons_of_neg (by simp [hi]), hi]⟩
        · obtain ⟨rest, hrest⟩ := ih ((List.mem_cons.mp h).resolve_left (Ne.symm hi))
          exact ⟨rest, by rw [List.dropWhile_cons_of_pos (by simp [hi]), hrest]⟩
  obtain ⟨rest, hrest⟩ := hfrom
  exact ⟨rest, hrest, hrest ▸ List.dropWhile_suffix _⟩

/-! ## Turns -/

theorem play_succ {code : List Item} {turns k : Nat} {ds : List Decision} {rest : List Item}
    {result : List Uid × Ending} (h : play code turns k ds rest = some result) :
    play code (turns + 1) k ds rest = some result := by
  induction turns generalizing k ds rest result with
  | zero => simp [play] at h
  | succ turns ih =>
      rw [play] at h ⊢
      split at h
      · exact h
      · exact ih h
      · split at h
        · exact h
        · obtain ⟨result', h', rfl⟩ := Option.map_eq_some_iff.mp h
          rw [ih h']
          rfl

/-- `Plays code k ds rest result`: with enough turns, playing comes to a result. -/
def Plays (code : List Item) (k : Nat) (ds : List Decision) (rest : List Item)
    (result : List Uid × Ending) : Prop := ∃ turns, play code turns k ds rest = some result

namespace Plays

variable {code rest rest' : List Item} {k : Nat} {ds ds' : List Decision}
  {result : List Uid × Ending}

/-- What playing comes to does not depend on the turns, once there are enough. -/
theorem exists_turns (h : Plays code k ds rest result) :
    ∃ turns, ∀ turns' ≥ turns, play code turns' k ds rest = some result := by
  obtain ⟨turns, hplay⟩ := h
  refine ⟨turns, ?_⟩
  intro turns' hle
  induction hle with
  | refl => exact hplay
  | step _ ih => exact play_succ ih

theorem go (hturn : turn code ds rest = .go ds' rest') (h : Plays code k ds' rest' result) :
    Plays code k ds rest result := by
  obtain ⟨turns, hplay⟩ := h
  exact ⟨turns + 1, by rw [play, hturn]; exact hplay⟩

theorem stop {ending : Ending} (hturn : turn code ds rest = .stop ending) :
    Plays code k ds rest ([], ending) := ⟨1, by rw [play, hturn]⟩

theorem meet_zero {u : Uid} : Plays code 0 ds (.enter u :: rest) ([], .onward) :=
  ⟨1, by rw [play, turn]⟩

theorem meet {u : Uid} (h : Plays code k ds rest result) :
    Plays code (k + 1) ds (.enter u :: rest) (u :: result.1, result.2) := by
  obtain ⟨turns, hplay⟩ := h
  exact ⟨turns + 1, by rw [play, turn]; simp only [hplay]; rfl⟩

/-- What the author wrote is passed over. -/
theorem text {level : Nat} {words : String} (h : Plays code k ds rest result) :
    Plays code k ds (Item.ofText level words ++ rest) result := by
  unfold Item.ofText
  induction Text.lines words with
  | nil => exact h
  | cons line lines ih =>
      refine go ?_ ih
      by_cases hline : line = "" <;> simp [turn, hline]

end Plays

/-! ## Blocks -/

/-- A label that is there is found. -/
theorem exists_afterLabel? {name : String} {code : List Item} (h : name ∈ labelNames code) :
    ∃ level rest, afterLabel? name code = some rest ∧ (.line level (.label name) :: rest) <:+ code := by
  induction code with
  | nil => simp [labelNames] at h
  | cons i code ih =>
      by_cases hname : i.label? = some name
      · obtain ⟨level, rfl⟩ := Item.label?_eq_some_iff.mp hname
        exact ⟨level, code, by rw [afterLabel?, if_pos hname], List.suffix_rfl⟩
      · have hrest : name ∈ labelNames code := by
          obtain ⟨j, hj, hname'⟩ := List.mem_filterMap.mp h
          rcases List.mem_cons.mp hj with rfl | hj
          · exact absurd hname' hname
          · exact List.mem_filterMap.mpr ⟨j, hj, hname'⟩
        obtain ⟨level, rest, hafter, hplace⟩ := ih hrest
        exact ⟨level, rest, by rw [afterLabel?, if_neg hname, hafter],
          hplace.trans (List.suffix_cons i code)⟩

/-- The block of a branch is passed on the way to its `otherwise`. -/
theorem afterOtherwise?_append {level : Nat} {block : List Item}
    (h : IsBlock (level + 1) block) (rest : List Item) :
    afterOtherwise? level (block ++ rest) = afterOtherwise? level rest := by
  induction block with
  | nil => rfl
  | cons i block ih =>
      obtain ⟨hfirst, hblock⟩ := isBlock_cons.mp h
      cases i with
      | enter | blank => exact ih hblock
      | line l st =>
          have hdeep : level < l := hfirst l rfl
          rw [List.cons_append, afterOtherwise?, if_pos hdeep]
          exact ih hblock

/-- The block of an option is passed on the way to another one. -/
theorem afterOption?_append {level index : Nat} {block : List Item}
    (h : IsBlock (level + 2) block) (rest : List Item) :
    afterOption? level index (block ++ rest) = afterOption? level index rest := by
  induction block with
  | nil => rfl
  | cons i block ih =>
      obtain ⟨hfirst, hblock⟩ := isBlock_cons.mp h
      cases i with
      | enter | blank => exact ih hblock
      | line l st =>
          have hdeep : level + 2 ≤ l := hfirst l rfl
          rw [List.cons_append, afterOption?, if_neg (by omega), if_neg (by omega)]
          exact ih hblock

/-- Behind the options of a choice there is none to be found. -/
theorem afterOption?_eq_none {level index : Nat} {rest : List Item}
    (h : ∀ l ∈ nextLevel? rest, l ≤ level) : afterOption? level index rest = none := by
  induction rest with
  | nil => rfl
  | cons i rest ih =>
      cases i with
      | enter | blank => exact ih h
      | line l st => rw [afterOption?, if_pos (h l rfl)]

end StoryGraph
