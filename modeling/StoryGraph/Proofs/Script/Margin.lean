import Mathlib.Data.List.Infix
import StoryGraph.Indent
import StoryGraph.Script.Line

/-!
# Margins

The text of a script is a text of whole lines. `HasMargin` says that those of its lines that are not empty
begin with a margin, which is so of the lines of an item if it is nested that deep, and if what is written
on one line has no line feed in it.
-/

namespace StoryGraph

namespace Text

/-! ## Texts on one line -/

/-- Whether a text goes on one line. -/
def IsOneLine (text : String) : Prop := '\n' ∉ text.toList

instance (text : String) : Decidable (IsOneLine text) := inferInstanceAs (Decidable (_ ∉ _))

@[simp] theorem isOneLine_append {s t : String} : IsOneLine (s ++ t) ↔ IsOneLine s ∧ IsOneLine t := by
  simp [IsOneLine, not_or]

theorem not_mem_of_mem_linesFrom {text held cs : List Char} (hheld : '\n' ∉ held)
    (hcs : cs ∈ linesFrom held text) : '\n' ∉ cs := by
  induction text generalizing held with
  | nil =>
      rw [linesFrom] at hcs
      split at hcs
      · cases hcs
      · rw [List.mem_singleton.mp hcs]
        simpa using hheld
  | cons c text ih =>
      rw [linesFrom] at hcs
      split at hcs
      · rcases List.mem_cons.mp hcs with rfl | hcs
        · have hdrop : dropReturn held ⊆ held := by
            unfold dropReturn
            split
            · exact List.subset_cons_self ..
            · exact List.Subset.refl _
          simpa using fun hmem ↦ hheld (hdrop hmem)
        · exact ih List.not_mem_nil hcs
      · rename_i hc
        exact ih (by simp [hheld, Ne.symm hc]) hcs

theorem isOneLine_of_mem_lines {text line : String} (h : line ∈ lines text) : IsOneLine line := by
  obtain ⟨cs, hcs, rfl⟩ := List.mem_map.mp h
  simpa [IsOneLine] using not_mem_of_mem_linesFrom List.not_mem_nil hcs

/-- A mark behind a list without it is the first one there is. -/
theorem eq_or_exists_of_append_cons_eq {α : Type} {mark : α} {l r before after : List α} (hl : mark ∉ l)
    (h : l ++ mark :: r = before ++ mark :: after) : after = r ∨ ∃ mid, r = mid ++ mark :: after := by
  induction l generalizing before with
  | nil =>
      cases before with
      | nil => exact .inl (List.cons.inj h).2.symm
      | cons c before => exact .inr ⟨before, (List.cons.inj h).2⟩
  | cons c l ih =>
      rw [List.mem_cons, not_or] at hl
      obtain ⟨hc, hl⟩ := hl
      cases before with
      | nil => exact absurd (List.cons.inj h).1.symm hc
      | cons c' before => exact ih hl (List.cons.inj h).2

/-! ## Texts with a margin -/

/-- `HasMargin margin text`: a text consists of lines, each with a line feed behind it, and each line is
empty or begins with a margin. -/
def HasMargin (margin text : String) : Prop :=
  ∃ lines : List String, text = String.join (lines.map (· ++ "\n")) ∧
    ∀ line ∈ lines, IsOneLine line ∧ (line = "" ∨ margin.toList <+: line.toList)

namespace HasMargin

variable {margin text : String}

theorem empty (margin : String) : HasMargin margin "" := ⟨[], rfl, by simp⟩

theorem append {s t : String} (hs : HasMargin margin s) (ht : HasMargin margin t) :
    HasMargin margin (s ++ t) := by
  obtain ⟨first, rfl, hfirst⟩ := hs
  obtain ⟨second, rfl, hsecond⟩ := ht
  refine ⟨first ++ second, ?_, List.forall_mem_append.mpr ⟨hfirst, hsecond⟩⟩
  rw [List.map_append, String.join_append]

theorem feed (margin : String) : HasMargin margin "\n" := ⟨[""], rfl, by simp [IsOneLine]⟩

theorem line {line : String} (hline : IsOneLine line) (hmargin : margin.toList <+: line.toList) :
    HasMargin margin (line ++ "\n") := by
  refine ⟨[line], ?_, by simpa using ⟨hline, .inr hmargin⟩⟩
  rw [List.map_singleton, String.join_cons, String.join_nil, String.append_empty]

/-- Behind a line feed there is nothing more, another line feed, or the margin. -/
theorem of_feed (h : HasMargin margin text) {before after : List Char}
    (hsplit : text.toList = before ++ '\n' :: after) :
    after = [] ∨ after.head? = some '\n' ∨ margin.toList <+: after := by
  obtain ⟨lines, rfl, hlines⟩ := h
  induction lines generalizing before with
  | nil => simp at hsplit
  | cons line lines ih =>
      obtain ⟨⟨hline, -⟩, hlines⟩ := List.forall_mem_cons.mp hlines
      have hsplit : line.toList ++ '\n' :: (String.join (lines.map (· ++ "\n"))).toList =
          before ++ '\n' :: after := by simpa using hsplit
      rcases eq_or_exists_of_append_cons_eq hline hsplit with rfl | ⟨mid, hmid⟩
      · cases lines with
        | nil => exact .inl rfl
        | cons next lines =>
            right
            rw [List.map_cons, String.join_cons, String.toList_append, String.toList_append]
            rcases (hlines next List.mem_cons_self).2 with rfl | hmargin
            · exact .inl rfl
            · exact .inr ((hmargin.trans (List.prefix_append ..)).trans (List.prefix_append ..))
      · exact ih hlines hmid

end HasMargin

end Text

open Text

theorem Indent.isOneLine_unit (indent : Indent) : IsOneLine indent.unit := by
  cases indent with
  | tab => decide
  | spaces width => simp [unit, IsOneLine]

namespace Item

variable {unit : String}

@[simp] theorem renderAll_cons (unit : String) (i : Item) (items : List Item) :
    renderAll unit (i :: items) = i.render unit ++ renderAll unit items := String.join_cons

@[simp] theorem renderAll_append (unit : String) (items others : List Item) :
    renderAll unit (items ++ others) = renderAll unit items ++ renderAll unit others := by
  rw [renderAll, List.map_append, String.join_append, renderAll, renderAll]

theorem isOneLine_margin (hunit : IsOneLine unit) (level : Nat) : IsOneLine (margin unit level) := by
  induction level with
  | zero => simp [margin, IsOneLine]
  | succ level ih => exact isOneLine_append.mpr ⟨hunit, ih⟩

/-- The margin of a deeper level begins with that of a level. -/
theorem prefix_margin (unit : String) {m n : Nat} (h : m ≤ n) :
    (margin unit m).toList <+: (margin unit n).toList := by
  induction m generalizing n with
  | zero => exact List.nil_prefix
  | succ m ih =>
      obtain ⟨n, rfl⟩ := Nat.exists_eq_add_one_of_ne_zero (Nat.ne_of_gt (Nat.lt_of_lt_of_le m.succ_pos h))
      rw [margin, margin, String.toList_append, String.toList_append]
      exact (List.prefix_append_right_inj _).mpr (ih (Nat.le_of_succ_le_succ h))

end Item

end StoryGraph
