import Mathlib.Tactic.Tauto
import StoryGraph.Project.Backup
import StoryGraph.Proofs.Files.Names

/-!
# The files of backups

A backup stands in the directory `backups` beside its project file. Its name ends in a slot and an
extension without dots, so it can be taken apart again, whatever dots the name of the project file has: the
stem, the slot and the extension are all there. But the extension may be one that the file does not have. A
file without an extension shares its backups with the file of its name behind which `.json` stands.
-/

namespace StoryGraph

open StoryGraph.Path

/-! ## Names that share their backups -/

/-- The name with the extension that it stands for. -/
def fullName (name : String) : String :=
  if '.' ∈ name.toList.tail then name else name ++ ".json"

/-- A name that is not empty has a stem, and if it has no extension it stands for one. -/
theorem exists_splitName {name : String} (hname : name ≠ "") :
    ∃ stem extension, stem ≠ "" ∧ '.' ∉ extension.toList ∧ fullName name = stem ++ "." ++ extension ∧
      (splitName name).1 = stem ∧ (splitName name).2.getD "json" = extension := by
  rcases splitName_cases name with ⟨hdot, hsplit⟩ | ⟨stem, extension, hstem, hextension, rfl, hsplit⟩
  · refine ⟨name, "json", hname, by decide, ?_, by rw [hsplit], by rw [hsplit]; rfl⟩
    rw [fullName, if_neg hdot, String.append_assoc]
    rfl
  · exact ⟨stem, extension, hstem, hextension, if_pos (mem_tail_append hstem), by rw [hsplit],
      by rw [hsplit]; rfl⟩

/-- `SharesBackups a b`: two names are the same, or one has no extension and the other is that name with the
extension that it stands for. -/
def SharesBackups (a b : String) : Prop :=
  a = b ∨ ('.' ∉ a.toList.tail ∧ b = a ++ ".json") ∨ ('.' ∉ b.toList.tail ∧ a = b ++ ".json")

instance (a b : String) : Decidable (SharesBackups a b) := inferInstanceAs (Decidable (_ ∨ _ ∨ _))

theorem fullName_append_json {name : String} (hname : name ≠ "") :
    fullName (name ++ ".json") = name ++ ".json" :=
  if_pos (String.append_assoc ▸ mem_tail_append hname : '.' ∈ (name ++ ("." ++ "json")).toList.tail)

theorem fullName_eq_iff {a b : String} (ha : a ≠ "") (hb : b ≠ "") :
    fullName a = fullName b ↔ SharesBackups a b := by
  constructor
  · intro h
    unfold fullName at h
    split at h <;> split at h
    · exact .inl h
    · rename_i hdot
      exact .inr (.inr ⟨hdot, h⟩)
    · rename_i hdot _
      exact .inr (.inl ⟨hdot, h.symm⟩)
    · exact .inl (String.append_left_inj _ |>.mp h)
  · rintro (rfl | ⟨hdot, rfl⟩ | ⟨hdot, rfl⟩)
    · rfl
    · rw [fullName_append_json ha, fullName, if_neg hdot]
    · rw [fullName_append_json hb, fullName, if_neg hdot]

/-! ## The file of a slot -/

/-- The name of the backup of a file in a slot. -/
def backupName (name : String) (slot : Nat) : String :=
  (splitName name).1 ++ ".backup" ++ slot.repr ++ "." ++ (splitName name).2.getD "json"

theorem not_mem_toDigits {c : Char} (hc : ¬ c.isDigit) (n : Nat) : c ∉ Nat.toDigits 10 n :=
  fun hmem ↦ hc (Nat.isDigit_of_mem_toDigits (by decide) (by decide) hmem)

/-- A number is read back from its digits. -/
theorem repr_inj {i j : Nat} : i.repr = j.repr ↔ i = j := by
  refine ⟨fun h ↦ ?_, congrArg Nat.repr⟩
  have hdigits : Nat.toDigits 10 i = Nat.toDigits 10 j := String.ofList_injective h
  rw [← Nat.ofDigitChars_ten_toDigits (n := i), hdigits, Nat.ofDigitChars_ten_toDigits]

/-- Slot and file name can be told from the name of a backup, up to the extension that stands for none. -/
theorem backupName_eq_iff {a b : String} (ha : a ≠ "") (hb : b ≠ "") {i j : Nat} :
    backupName a i = backupName b j ↔ i = j ∧ fullName a = fullName b := by
  obtain ⟨stem, extension, hstem, hdot, hfull, hstemEq, hextensionEq⟩ := exists_splitName ha
  obtain ⟨stem', extension', hstem', hdot', hfull', hstemEq', hextensionEq'⟩ := exists_splitName hb
  have hslot (n : Nat) : '.' ∉ ("backup" ++ n.repr).toList := by
    simpa using not_mem_toDigits (by decide) n
  have hinner (stem : String) (n : Nat) :
      stem ++ ".backup" ++ n.repr = stem ++ "." ++ ("backup" ++ n.repr) := by
    simp only [String.append_assoc]
    rfl
  -- the name of a backup is cut at its last dot, and the part in front of that once more
  unfold backupName
  rw [hstemEq, hextensionEq, hstemEq', hextensionEq', hfull, hfull',
    append_dot_inj (by simp) (by simp) hdot hdot', hinner, hinner,
    append_dot_inj hstem hstem' (hslot i) (hslot j), append_dot_inj hstem hstem' hdot hdot',
    String.append_right_inj, repr_inj]
  tauto

theorem not_mem_backupName {name : String} (h : '/' ∉ name.toList) (slot : Nat) :
    '/' ∉ (backupName name slot).toList := by
  have hslot : '/' ∉ Nat.toDigits 10 slot := not_mem_toDigits (by decide) slot
  unfold backupName
  rcases splitName_cases name with ⟨-, hsplit⟩ | ⟨stem, extension, -, -, rfl, hsplit⟩
  · simp [hsplit, h, hslot]
  · simp only [String.toList_append, List.mem_append, not_or] at h
    simp [hsplit, h, hslot]

theorem Path.IsFileName.backupName {name : String} (h : IsFileName name) (slot : Nat) :
    IsFileName (backupName name slot) := by
  have hb : 'b' ∈ (StoryGraph.backupName name slot).toList := by simp [StoryGraph.backupName]
  refine ⟨?_, ?_, not_mem_backupName h.not_mem_slash slot⟩
  · rw [isIdle, Bool.or_eq_true, decide_eq_true_iff, decide_eq_true_iff]
    rintro (hname | hname) <;> simp [hname] at hb
  · rintro hname
    simp [hname] at hb

theorem isFileName_backups : IsFileName "backups" := ⟨by decide, by decide, by decide⟩

/-- The backup of a file stands in the directory beside it. -/
theorem backupPath_join {name : String} (h : IsFileName name) (dir : Path) (slot : Nat) :
    backupPath (dir.join name) slot = (dir.trimmed.join "backups").join (backupName name slot) := by
  simp [backupPath, stem?, extension?, h.fileName?_join, h.parent?_join, backupName]

/-- Two backups of files in one directory are the same only if the slots are the same, and the names are the
same but for an extension `json` that one of them does not have. In different directories they are never the
same file. Each stands right in the directory `backups` beside its file. -/
theorem backupPath_eq_iff {a b : String} (ha : IsFileName a) (hb : IsFileName b) (dir : Path) (i j : Nat) :
    (backupPath (dir.join a) i = backupPath (dir.join b) j ↔ i = j ∧ SharesBackups a b) ∧
    (∀ (dir' : Path) (current : Location),
      (backupPath (dir.join a) i).locate current = (backupPath (dir'.join b) j).locate current ↔
        dir.locate current = dir'.locate current ∧ i = j ∧ SharesBackups a b) ∧
    (backupPath (dir.join a) i).parent? = some (dir.trimmed.join "backups") ∧
    ∃ file, IsFileName file ∧ backupPath (dir.join a) i = (dir.trimmed.join "backups").join file ∧
      ∀ current, (backupPath (dir.join a) i).locate current = file :: "backups" :: dir.locate current := by
  have hlocate {name : String} (h : IsFileName name) (dir : Path) (slot : Nat) (current : Location) :
      (backupPath (dir.join name) slot).locate current =
        backupName name slot :: "backups" :: dir.locate current := by
    rw [backupPath_join h, (h.backupName slot).locate_join, isFileName_backups.locate_join, locate_trimmed]
  have hname : backupName a i = backupName b j ↔ i = j ∧ SharesBackups a b := by
    rw [backupName_eq_iff ha.ne_empty hb.ne_empty, fullName_eq_iff ha.ne_empty hb.ne_empty]
  refine ⟨?_, ?_, ?_, _, ha.backupName i, backupPath_join ha dir i, hlocate ha dir i⟩
  · rw [backupPath_join ha, backupPath_join hb, (ha.backupName i).join_inj (hb.backupName j), hname]
  · intro dir' current
    rw [hlocate ha, hlocate hb, List.cons.injEq, List.cons.injEq, hname]
    tauto
  · rw [backupPath_join ha, (ha.backupName i).parent?_join, isFileName_backups.trimmed_join]

/-- The backup of a backup is told from the backups of the first file. -/
theorem backupPath_ne_tale :
    IsFileName "tale.json" ∧ IsFileName "tale.backup2.json" ∧ ∀ dir : Path,
      backupPath (dir.join "tale.json") 1 ≠ backupPath (dir.join "tale.backup2.json") 1 := by
  have ha : IsFileName "tale.json" := ⟨by decide, by decide, by decide⟩
  have hb : IsFileName "tale.backup2.json" := ⟨by decide, by decide, by decide⟩
  refine ⟨ha, hb, fun dir heq ↦ ?_⟩
  obtain ⟨-, hshares⟩ := (backupPath_eq_iff ha hb dir 1 1).1.mp heq
  revert hshares
  decide

/-- Not all files of a directory have backups of their own. -/
theorem not_forall_eq_of_backupPath_eq :
    ¬ ∀ (dir : Path) (a b : String) (i j : Nat), IsFileName a → IsFileName b →
      backupPath (dir.join a) i = backupPath (dir.join b) j → a = b ∧ i = j := by
  intro h
  have hsame : backupPath (Path.empty.join "story") 1 = backupPath (Path.empty.join "story.json") 1 := by
    decide
  have hnames := (h .empty "story" "story.json" 1 1 ⟨by decide, by decide, by decide⟩
    ⟨by decide, by decide, by decide⟩ hsame).1
  exact absurd hnames (by decide)

end StoryGraph
