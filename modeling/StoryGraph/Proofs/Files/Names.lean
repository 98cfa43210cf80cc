import StoryGraph.Proofs.Files.Tree

/-!
# Names of files

A file name is taken apart at its last dot, into a stem and an extension, unless nothing is in front of that
dot. An extension has no dots, so the name can be put together again. In a directory a file name is the end
of a path, which tells it and leads back to the directory.
-/

namespace StoryGraph.Path

/-! ## Stems and extensions -/

/-- What is behind the last dot is the extension, if something is in front of that dot. -/
theorem splitName_append {stem extension : String} (hstem : stem ≠ "") (hdot : '.' ∉ extension.toList) :
    splitName (stem ++ "." ++ extension) = (stem, some extension) := by
  have hpos : ∀ c ∈ extension.toList.reverse, decide (c ≠ '.') := by
    intro c hc
    refine decide_eq_true ?_
    rintro rfl
    exact hdot (List.mem_reverse.mp hc)
  obtain ⟨c, cs, hcs⟩ : ∃ c cs, stem.toList.reverse = c :: cs :=
    List.exists_cons_of_ne_nil (by simpa using hstem)
  have hreverse : (stem ++ "." ++ extension).toList.reverse =
      extension.toList.reverse ++ '.' :: c :: cs := by simp [← hcs]
  have hback : (c :: cs).reverse = stem.toList := by rw [← hcs, List.reverse_reverse]
  unfold splitName
  rw [hreverse, List.takeWhile_append_of_pos hpos, List.dropWhile_append_of_pos hpos]
  simp [-List.reverse_cons, hback]

theorem append_dot_inj {stem stem' extension extension' : String} (hstem : stem ≠ "") (hstem' : stem' ≠ "")
    (hdot : '.' ∉ extension.toList) (hdot' : '.' ∉ extension'.toList) :
    stem ++ "." ++ extension = stem' ++ "." ++ extension' ↔ stem = stem' ∧ extension = extension' := by
  constructor
  · intro h
    have hsplit := congrArg splitName h
    rw [splitName_append hstem hdot, splitName_append hstem' hdot'] at hsplit
    obtain ⟨hstems, hextensions⟩ := Prod.mk.inj hsplit
    exact ⟨hstems, Option.some.inj hextensions⟩
  · rintro ⟨rfl, rfl⟩
    rfl

/-- A name without dots behind its first character has no extension. -/
theorem splitName_of_not_mem {name : String} (hdot : '.' ∉ name.toList.tail) :
    splitName name = (name, none) := by
  unfold splitName
  dsimp only
  split
  · rename_i c stem hstem
    obtain ⟨after, hreverse⟩ : ∃ after, name.toList.reverse = after ++ '.' :: c :: stem :=
      ⟨_, by rw [← hstem, List.takeWhile_append_dropWhile]⟩
    have hname : name.toList = stem.reverse ++ c :: '.' :: after.reverse := by
      simpa using congrArg List.reverse hreverse
    refine absurd ?_ hdot
    rw [hname]
    cases stem.reverse <;> simp
  · rfl

/-- A name has an extension or not. -/
theorem splitName_cases (name : String) :
    ('.' ∉ name.toList.tail ∧ splitName name = (name, none)) ∨
      ∃ stem extension, stem ≠ "" ∧ '.' ∉ extension.toList ∧ name = stem ++ "." ++ extension ∧
        splitName name = (stem, some extension) := by
  by_cases hdot : '.' ∈ name.toList.tail
  · obtain ⟨after, before, htail, hafter⟩ := List.eq_append_cons_of_mem (List.mem_reverse.mpr hdot)
    obtain ⟨c, cs, hname⟩ : ∃ c cs, name.toList = c :: cs :=
      List.exists_cons_of_ne_nil (by rintro hnil; simp [hnil] at hdot)
    rw [hname, List.tail_cons, List.reverse_eq_iff] at htail
    have hparts : name = .ofList (c :: before.reverse) ++ "." ++ .ofList after.reverse :=
      String.toList_injective (by simp [hname, htail])
    have hstem : String.ofList (c :: before.reverse) ≠ "" := by simp
    have hextension : '.' ∉ (String.ofList after.reverse).toList := by simpa using hafter
    exact .inr ⟨_, _, hstem, hextension, hparts, hparts ▸ splitName_append hstem hextension⟩
  · exact .inl ⟨hdot, splitName_of_not_mem hdot⟩

theorem mem_tail_append {name extension : String} (hname : name ≠ "") :
    '.' ∈ (name ++ "." ++ extension).toList.tail := by
  obtain ⟨c, cs, hcs⟩ : ∃ c cs, name.toList = c :: cs := List.exists_cons_of_ne_nil (by simpa using hname)
  simp [hcs]

/-! ## Names in a directory -/

/-- An empty segment at the end of a path names nothing. -/
theorem significant_openEnd (rooted : Bool) (segments : List String) :
    significant ⟨rooted, openEnd segments⟩ = significant ⟨rooted, segments⟩ := by
  unfold openEnd
  split
  · rename_i hlast
    obtain ⟨before, rfl⟩ := List.getLast?_eq_some_iff.mp hlast
    rw [List.dropLast_concat]
    cases rooted with
    | true => simp [significant, isIdle]
    | false =>
        cases before with
        | nil => rfl
        | cons segment before =>
            by_cases hdot : segment = "."
            · simp [significant, isIdle, hdot]
            · simp [significant, isIdle, hdot]
  · rfl

/-- What names nothing at the end of a path leads nowhere. -/
theorem locate_trimmed (p : Path) (current : Location) : p.trimmed.locate current = p.locate current := by
  have hidle (segments : List String) (l : Location) :
      (segments.reverse.dropWhile isIdle).reverse.foldl step l = segments.foldl step l := by
    rw [foldl_step_dropWhile fun _ ↦ id, List.reverse_reverse]
  unfold locate trimmed significant
  split
  · rename_i segments hrooted hsegments
    rw [hsegments, List.reverse_append, List.foldl_append, hidle]
    rfl
  · exact hidle _ _

/-- `IsFileName name`: what an entry of a directory may be called. -/
structure IsFileName (name : String) : Prop where
  not_isIdle : ¬ isIdle name
  ne_up : name ≠ ".."
  not_mem_slash : '/' ∉ name.toList

namespace IsFileName

variable {name : String} (h : IsFileName name)

include h

theorem ne_empty : name ≠ "" := by
  rintro rfl
  exact h.not_isIdle rfl

theorem ne_here : name ≠ "." := by
  rintro rfl
  exact h.not_isIdle rfl

theorem join_eq (dir : Path) : dir.join name = ⟨dir.rooted, openEnd dir.segments ++ [name]⟩ := by
  rw [join, ofText_of_not_mem h.ne_empty h.not_mem_slash]
  rfl

theorem significant_join (dir : Path) :
    (dir.join name).significant = name :: (openEnd dir.segments).reverse := by
  have hidle : isIdle name = false := by simpa using h.not_isIdle
  rw [h.join_eq, significant]
  split
  · rename_i segments _ hsegments
    cases hopen : openEnd dir.segments with
    | nil =>
        rw [hopen] at hsegments
        exact absurd (List.cons.inj hsegments).1 h.ne_here
    | cons segment rest =>
        rw [hopen, List.cons_append] at hsegments
        obtain ⟨rfl, rfl⟩ := List.cons.inj hsegments
        simp [hidle]
  · simp [hidle]

theorem fileName?_join (dir : Path) : (dir.join name).fileName? = some name := by
  rw [fileName?, h.significant_join]
  exact if_neg (not_or.mpr ⟨h.ne_here, h.ne_up⟩)

theorem parent?_join (dir : Path) : (dir.join name).parent? = some dir.trimmed := by
  rw [parent?, h.significant_join]
  dsimp only
  rw [trimmed, trimmed, List.reverse_reverse, significant_openEnd, h.join_eq]

theorem trimmed_join (dir : Path) : (dir.join name).trimmed = dir.join name := by
  rw [trimmed, h.significant_join, List.reverse_cons, List.reverse_reverse, h.join_eq]

theorem locate_join (dir : Path) (current : Location) :
    (dir.join name).locate current = name :: dir.locate current :=
  Path.locate_join h.not_mem_slash h.not_isIdle h.ne_up current

omit h in
theorem join_inj {other : String} (h : IsFileName name) (hother : IsFileName other) {dir : Path} :
    dir.join name = dir.join other ↔ name = other := by
  rw [h.join_eq, hother.join_eq]
  simp

end IsFileName

end StoryGraph.Path
