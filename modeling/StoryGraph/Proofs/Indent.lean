import Mathlib.Data.List.Induction
import Mathlib.Data.List.TakeWhile
import Mathlib.Data.Nat.Digits.Defs
import StoryGraph.Indent

/-!
# How an indent is spelled

What stands between the blanks at both ends of a text spells a tab by one of three names, or a width by one or
more decimal digits, perhaps behind a plus sign. A text that spells no indent is refused.
-/

namespace StoryGraph

namespace Text

/-! ## Trimming -/

/-- `Trims s t`: without the blanks at its ends, `s` is `t`. -/
structure Trims (s t : String) : Prop where
  /-- Around it stand blanks and nothing else. -/
  around : ∃ before after, s.toList = before ++ t.toList ++ after ∧ (∀ c ∈ before, isBlank c) ∧
    ∀ c ∈ after, isBlank c
  first : ∀ c ∈ t.toList.head?, isBlank c = false
  last : ∀ c ∈ t.toList.getLast?, isBlank c = false

/-- Blanks are dropped in front of what begins with none. -/
theorem dropWhile_blanks {blanks cs : List Char} (hblanks : ∀ c ∈ blanks, isBlank c)
    (hcs : ∀ c ∈ cs.head?, isBlank c = false) : (blanks ++ cs).dropWhile isBlank = cs := by
  rw [List.dropWhile_append_of_pos hblanks]
  cases cs with
  | nil => rfl
  | cons c cs => exact List.dropWhile_cons_of_neg (by simp [hcs c rfl])

theorem trimChars_append {before cs after : List Char} (hbefore : ∀ c ∈ before, isBlank c)
    (hafter : ∀ c ∈ after, isBlank c) (hfirst : ∀ c ∈ cs.head?, isBlank c = false)
    (hlast : ∀ c ∈ cs.getLast?, isBlank c = false) : trimChars (before ++ cs ++ after) = cs := by
  cases cs with
  | nil =>
      have hblanks : ∀ c ∈ before ++ after, isBlank c := List.forall_mem_append.mpr ⟨hbefore, hafter⟩
      have hdrop : (before ++ after ++ []).dropWhile isBlank = [] := dropWhile_blanks hblanks nofun
      rw [List.append_nil] at hdrop ⊢
      rw [trimChars, hdrop]
      rfl
  | cons c cs =>
      have hend : ∀ d ∈ (c :: cs).reverse.head?, isBlank d = false := by rwa [List.head?_reverse]
      rw [trimChars, List.append_assoc, dropWhile_blanks hbefore (by simpa using hfirst),
        List.reverse_append, dropWhile_blanks (by simpa using hafter) hend, List.reverse_reverse]

theorem exists_trimChars (cs : List Char) :
    ∃ before after, cs = before ++ trimChars cs ++ after ∧ (∀ c ∈ before, isBlank c) ∧
      (∀ c ∈ after, isBlank c) ∧ (∀ c ∈ (trimChars cs).head?, isBlank c = false) ∧
      ∀ c ∈ (trimChars cs).getLast?, isBlank c = false := by
  have hfront := List.takeWhile_append_dropWhile (p := isBlank) (l := cs)
  generalize hrest : cs.dropWhile isBlank = rest at hfront
  have hback := List.takeWhile_append_dropWhile (p := isBlank) (l := rest.reverse)
  have htrim : trimChars cs = (rest.reverse.dropWhile isBlank).reverse := by rw [trimChars, hrest]
  have hparts : rest = trimChars cs ++ (rest.reverse.takeWhile isBlank).reverse := by
    rw [htrim, ← List.reverse_append, hback, List.reverse_reverse]
  refine ⟨cs.takeWhile isBlank, (rest.reverse.takeWhile isBlank).reverse, ?_, ?_, ?_, ?_, ?_⟩
  · rw [List.append_assoc, ← hparts, hfront]
  · exact fun c ↦ List.mem_takeWhile_imp
  · intro c hc
    exact List.mem_takeWhile_imp (List.mem_reverse.mp hc)
  · intro c hc
    have hhead : rest.head? = some c := by
      rw [hparts, List.head?_append, hc]
      rfl
    have hnot := List.head?_dropWhile_not isBlank cs
    rw [hrest, hhead] at hnot
    simpa using hnot
  · intro c hc
    rw [htrim, List.getLast?_reverse] at hc
    have hnot := List.head?_dropWhile_not isBlank rest.reverse
    rw [hc] at hnot
    simpa using hnot

/-- Trimming leaves what stands between the blanks at both ends. -/
theorem trims_iff {s t : String} : Trims s t ↔ trim s = t := by
  constructor
  · rintro ⟨⟨before, after, heq, hbefore, hafter⟩, hfirst, hlast⟩
    rw [trim, heq, trimChars_append hbefore hafter hfirst hlast, String.ofList_toList]
  · rintro rfl
    obtain ⟨before, after, heq, hbefore, hafter, hfirst, hlast⟩ := exists_trimChars s.toList
    have htrim : (trim s).toList = trimChars s.toList := String.toList_ofList
    rw [← htrim] at heq hfirst hlast
    exact ⟨⟨before, after, heq, hbefore, hafter⟩, hfirst, hlast⟩

/-! ## Numbers -/

/-- Each digit stands for ten times as much as the one behind it. -/
theorem digitsValue_eq_ofDigits (digits : List Char) :
    digitsValue digits = Nat.ofDigits 10 (digits.map fun c ↦ c.toNat - '0'.toNat).reverse := by
  induction digits using List.reverseRecOn with
  | nil => rfl
  | append_singleton digits c ih =>
      rw [List.map_append, List.reverse_append, List.map_singleton, List.reverse_singleton,
        List.singleton_append, Nat.ofDigits_cons, ← ih, digitsValue, List.foldl_append, Nat.add_comm]
      rfl

/-- A number is written as one or more digits, perhaps behind a plus sign. -/
theorem nat?_eq_some_iff {cs : List Char} {n : Nat} :
    nat? cs = some n ↔ ∃ sign digits, cs = sign ++ digits ∧ (sign = [] ∨ sign = ['+']) ∧ digits ≠ [] ∧
      (∀ c ∈ digits, '0'.toNat ≤ c.toNat ∧ c.toNat ≤ '9'.toNat) ∧
      Nat.ofDigits 10 (digits.map fun c ↦ c.toNat - '0'.toNat).reverse = n := by
  have hdigit (c : Char) : c.isDigit ↔ '0'.toNat ≤ c.toNat ∧ c.toNat ≤ '9'.toNat := by
    simp only [Char.isDigit, Bool.and_eq_true, decide_eq_true_eq]
    rfl
  have hdigits (digits : List Char) : (!digits.isEmpty) = true ∧ digits.all Char.isDigit = true ↔
      digits ≠ [] ∧ ∀ c ∈ digits, '0'.toNat ≤ c.toNat ∧ c.toNat ≤ '9'.toNat := by
    simp [hdigit]
  have hplus : ∃ sign, cs = sign ++ withoutPlus cs ∧ (sign = [] ∨ sign = ['+']) := by
    unfold withoutPlus
    split
    · exact ⟨['+'], rfl, .inr rfl⟩
    · exact ⟨[], rfl, .inl rfl⟩
  simp only [nat?, hdigits]
  constructor
  · intro h
    split at h
    · rename_i hgood
      obtain ⟨sign, heq, hsign⟩ := hplus
      exact ⟨sign, _, heq, hsign, hgood.1, hgood.2, digitsValue_eq_ofDigits _ ▸ Option.some.inj h⟩
    · simp at h
  · rintro ⟨sign, digits, rfl, hsign, hne, hall, rfl⟩
    have hrest : withoutPlus (sign ++ digits) = digits := by
      rcases hsign with rfl | rfl
      · rw [List.nil_append, withoutPlus]
        rintro cs rfl
        exact absurd (hall '+' List.mem_cons_self) (by decide)
      · rfl
    rw [hrest, if_pos ⟨hne, hall⟩, digitsValue_eq_ofDigits]

end Text

namespace Indent

/-! ## Spelling -/

/-- `Spells t indent`: a text without blanks at its ends spells an indent. -/
inductive Spells : String → Indent → Prop
  | tab : Spells "tab" .tab
  | tabs : Spells "tabs" .tab
  /-- A backslash and a letter. -/
  | escape : Spells "\\t" .tab
  /-- Any number of zeros may stand in front, and the value is one from 1 to 255. -/
  | width {sign digits : List Char} {w : UInt8} (hsign : sign = [] ∨ sign = ['+']) (hne : digits ≠ [])
      (hdigits : ∀ c ∈ digits, '0'.toNat ≤ c.toNat ∧ c.toNat ≤ '9'.toNat)
      (hvalue : Nat.ofDigits 10 (digits.map fun c ↦ c.toNat - '0'.toNat).reverse = w.toNat)
      (hpos : 1 ≤ w.toNat) : Spells (.ofList (sign ++ digits)) (.spaces w)

theorem width?_eq_some_iff {cs : List Char} {w : UInt8} :
    width? cs = some w ↔ Text.nat? cs = some w.toNat ∧ 1 ≤ w.toNat := by
  unfold width?
  cases Text.nat? cs with
  | none => simp
  | some n =>
      have hlt : w.toNat < 256 := w.toNat_lt
      simp only [Option.some.injEq]
      constructor
      · intro h
        split at h
        · rename_i hn
          obtain rfl := Option.some.inj h
          have hval : n.toUInt8.toNat = n := UInt8.toNat_ofNat_of_lt' hn.2
          rw [hval]
          exact ⟨rfl, hn.1⟩
        · simp at h
      · rintro ⟨rfl, hpos⟩
        rw [if_pos ⟨hpos, hlt⟩]
        exact congrArg some w.ofNat_toNat

theorem ofTrimmed?_eq_some_iff {t : String} {indent : Indent} :
    ofTrimmed? t = some indent ↔ Spells t indent := by
  constructor
  · intro h
    unfold ofTrimmed? at h
    split at h
    · rename_i hname
      obtain rfl := Option.some.inj h
      rcases hname with rfl | rfl | rfl
      · exact .tab
      · exact .tabs
      · exact .escape
    · obtain ⟨w, hw, rfl⟩ := Option.map_eq_some_iff.mp h
      obtain ⟨hnat, hpos⟩ := width?_eq_some_iff.mp hw
      obtain ⟨sign, digits, heq, hsign, hne, hdigits, hvalue⟩ := Text.nat?_eq_some_iff.mp hnat
      have ht : t = .ofList (sign ++ digits) := by rw [← heq, String.ofList_toList]
      rw [ht]
      exact .width hsign hne hdigits hvalue hpos
  · rintro (_ | _ | _ | ⟨hsign, hne, hdigits, hvalue, hpos⟩)
    · rfl
    · rfl
    · rfl
    · rename_i sign digits w
      have hnat : Text.nat? (String.ofList (sign ++ digits)).toList = some w.toNat := by
        rw [String.toList_ofList]
        exact Text.nat?_eq_some_iff.mpr ⟨sign, digits, rfl, hsign, hne, hdigits, hvalue⟩
      have hnames : ∀ name ∈ ["tab", "tabs", "\\t"], String.ofList (sign ++ digits) ≠ name := by
        intro name hname heq
        have hnone : ∀ name ∈ ["tab", "tabs", "\\t"], Text.nat? name.toList = none := by decide
        rw [heq, hnone name hname] at hnat
        contradiction
      rw [ofTrimmed?, if_neg (by simpa using hnames), width?_eq_some_iff.mpr ⟨hnat, hpos⟩]
      rfl

/-- An indent is read where what is left of a text spells it. -/
theorem parse_eq_ok_iff {s : String} {indent : Indent} :
    parse s = .ok indent ↔ Spells (Text.trim s) indent := by
  rw [← ofTrimmed?_eq_some_iff, parse]
  cases ofTrimmed? (Text.trim s) <;> simp

/-- Where it spells none, what is left of the text is refused. -/
theorem parse_eq_error_iff {s : String} {e : Error} :
    parse s = .error e ↔ (¬ ∃ indent, Spells (Text.trim s) indent) ∧ e = .invalidIndent (Text.trim s) := by
  simp only [← ofTrimmed?_eq_some_iff, parse]
  cases ofTrimmed? (Text.trim s) <;> simp [eq_comm]

end Indent

end StoryGraph
