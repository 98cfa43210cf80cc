import StoryGraph.Json.Reader
import StoryGraph.Json.Writer

/-!
# The tokens of what is written

`Lexes text ts rest` says that a text is made of certain tokens where another text comes after it. A
string, a bracket or a margin is, whatever comes after it. A number is only before something that it
cannot go on with.
-/

namespace StoryGraph.Json

open Text (digitsValue)

/-! ## Strings -/

theorem hexPiece?_hexDigit {c : Char} (h : c.toNat < 0x20) :
    hexPiece? '0' '0' (hexDigit (c.toNat / 16)) (hexDigit (c.toNat % 16)) = some (.char c) := by
  have key : ∀ n < 0x20, hexPiece? '0' '0' (hexDigit (n / 16)) (hexDigit (n % 16)) =
      some (.char (.ofNat n)) := by decide
  rw [key c.toNat h, Char.ofNat_toNat]

/-- Scanning undoes the escape of one character. -/
theorem scanString_escape (held : List Piece) (c : Char) (cs : List Char) :
    scanString held (escape c ++ cs) = scanString (.char c :: held) cs := by
  unfold escape
  -- Seven characters have an escape of their own.
  iterate 7
    split
    · subst_vars
      simp [scanString, escaped?]
  split
  · rename_i hcontrol
    simp only [List.cons_append, List.nil_append, scanString, hexPiece?_hexDigit hcontrol]
  · rename_i hquote hbackslash _ _ _ _ _ hcontrol
    -- The character stands for itself, so no other rule of the scan applies.
    have hplain : ¬ (c.toNat < 0x20 ∨ c = '\\') := not_or.mpr ⟨hcontrol, hbackslash⟩
    simp only [List.cons_append, List.nil_append]
    rw [scanString, if_neg hplain]
    · exact hquote
    · exact fun _ _ _ _ _ hc _ ↦ hbackslash hc
    · exact fun _ _ hc _ ↦ hbackslash hc

theorem scanString_escapes (held : List Piece) (cs rest : List Char) :
    scanString held (cs.flatMap escape ++ '"' :: rest) =
      some (held.reverse ++ cs.map .char, rest) := by
  induction cs generalizing held with
  | nil => simp [scanString]
  | cons c cs ih =>
      rw [List.flatMap_cons, List.append_assoc, scanString_escape, ih]
      simp

@[simp] theorem joinPieces_map_char (cs : List Char) : joinPieces (cs.map .char) = some cs := by
  induction cs with
  | nil => rfl
  | cons c cs ih => simp [joinPieces, ih]

/-! ## Numbers -/

/-- A text that a number before it cannot go on with. -/
def Apart (cs : List Char) : Prop :=
  ∀ c ∈ cs.head?, c.isDigit = false ∧ c ≠ '.' ∧ c ≠ 'e' ∧ c ≠ 'E'

theorem Apart.cons {c : Char} (h : c.isDigit = false ∧ c ≠ '.' ∧ c ≠ 'e' ∧ c ≠ 'E')
    (cs : List Char) : Apart (c :: cs) := by
  intro c' hc'
  obtain rfl : c = c' := by simpa using hc'
  exact h

theorem digitsValue_toDigits (n : Nat) : digitsValue (Nat.toDigits 10 n) = n :=
  Nat.ofDigitChars_eq_foldl.symm.trans Nat.ofDigitChars_ten_toDigits

theorem isDigit_of_mem_toDigits {n : Nat} {c : Char} (h : c ∈ Nat.toDigits 10 n) : c.isDigit :=
  Nat.isDigit_of_mem_toDigits (by decide) (by decide) h

theorem exists_toDigits (n : Nat) : ∃ c cs, Nat.toDigits 10 n = c :: cs ∧ c.isDigit := by
  obtain ⟨c, cs, hcs⟩ := List.exists_cons_of_ne_nil (Nat.toDigits_ne_nil (n := n) (b := 10))
  exact ⟨c, cs, hcs, isDigit_of_mem_toDigits (hcs ▸ List.mem_cons_self)⟩

/-- No zero stands in front of other digits. -/
theorem head?_toDigits {n : Nat} (h : 0 < n) : (Nat.toDigits 10 n).head? ≠ some '0' := by
  induction n using Nat.strongRecOn with
  | ind n ih =>
      rw [Nat.toDigits_eq_if (by decide)]
      split
      · rename_i hn
        have key : ∀ d < 10, 0 < d → [Nat.digitChar d].head? ≠ some '0' := by decide
        exact key n hn h
      · obtain ⟨c, cs, hcs, -⟩ := exists_toDigits (n / 10)
        have hfirst := ih (n / 10) (by omega) (by omega)
        rw [hcs] at hfirst ⊢
        exact hfirst

/-- An integer is written as its digits, after a minus sign if it is negative. -/
theorem toList_toString (n : Int) :
    (∃ m : Nat, n = m ∧ (toString n).toList = Nat.toDigits 10 m) ∨
      ∃ m : Nat, 0 < m ∧ n = -m ∧ (toString n).toList = '-' :: Nat.toDigits 10 m := by
  rw [Int.toString_eq_repr, Int.repr_eq_if]
  split
  · rename_i hsign
    obtain ⟨m, rfl⟩ := Int.eq_ofNat_of_zero_le hsign
    exact .inl ⟨m, rfl, by rw [Int.toNat_natCast, Nat.toList_repr]⟩
  · rename_i hsign
    obtain ⟨m, hm⟩ := Int.eq_ofNat_of_zero_le (show 0 ≤ -n by omega)
    refine .inr ⟨m, by omega, by omega, ?_⟩
    rw [hm, Int.toNat_natCast, String.toList_append, Nat.toList_repr]
    rfl

theorem scanDigits?_append {ds rest : List Char} (hne : ds ≠ []) (hds : ∀ c ∈ ds, c.isDigit)
    (hrest : Apart rest) : scanDigits? (ds ++ rest) = some (ds, rest) := by
  have hspan : rest.takeWhile Char.isDigit = [] ∧ rest.dropWhile Char.isDigit = rest := by
    cases rest with
    | nil => exact ⟨rfl, rfl⟩
    | cons c cs => simp [(hrest c rfl).1]
  rw [scanDigits?, List.takeWhile_append_of_pos hds, List.dropWhile_append_of_pos hds, hspan.1,
    hspan.2, List.append_nil]
  simp [hne]

theorem scanFraction?_of_apart {rest : List Char} (h : Apart rest) :
    scanFraction? rest = some (none, rest) := by
  unfold scanFraction?
  split
  · exact absurd rfl (h '.' rfl).2.1
  · rfl

theorem scanExponent?_of_apart {rest : List Char} (h : Apart rest) :
    scanExponent? rest = some (none, rest) := by
  cases rest with
  | nil => rfl
  | cons c cs =>
      obtain ⟨-, -, he, hE⟩ := h c rfl
      simp [scanExponent?, he, hE]

theorem scanUnsigned?_toDigits (negative : Bool) (n : Nat) {rest : List Char} (h : Apart rest) :
    scanUnsigned? negative (Nat.toDigits 10 n ++ rest) =
      some (⟨negative, Nat.toDigits 10 n, none, none⟩, rest) := by
  have hdigits : scanDigits? (Nat.toDigits 10 n ++ rest) = some (Nat.toDigits 10 n, rest) :=
    scanDigits?_append Nat.toDigits_ne_nil (fun _ ↦ isDigit_of_mem_toDigits) h
  have hfirst : (Nat.toDigits 10 n).length = 1 ∨ (Nat.toDigits 10 n).head? ≠ some '0' := by
    rcases Nat.eq_zero_or_pos n with rfl | hn
    · exact .inl (by rw [Nat.toDigits_zero]; rfl)
    · exact .inr (head?_toDigits hn)
  have hinteger : scanInteger? (Nat.toDigits 10 n ++ rest) = some (Nat.toDigits 10 n, rest) := by
    rw [scanInteger?, hdigits]
    simpa using hfirst
  simp [scanUnsigned?, hinteger, scanFraction?_of_apart h, scanExponent?_of_apart h]

/-- An integer of 64 bits, signed or not. -/
def InRange (n : Int) : Prop := Int64.minValue.toInt ≤ n ∧ n < UInt64.size

theorem scanNumeral?_toString {n : Int} (hn : InRange n) {rest : List Char} (h : Apart rest) :
    ∃ m : Numeral, scanNumeral? ((toString n).toList ++ rest) = some (m, rest) ∧
      m.value = .int n := by
  obtain ⟨hmin, hmax⟩ := hn
  obtain ⟨m, rfl, htext⟩ | ⟨m, hpos, rfl, htext⟩ := toList_toString n
  · refine ⟨⟨false, Nat.toDigits 10 m, none, none⟩, ?_, ?_⟩
    · obtain ⟨c, cs, hcs, hc⟩ := exists_toDigits m
      rw [htext, ← scanUnsigned?_toDigits false m h, hcs, List.cons_append, scanNumeral?]
      rintro _ heq
      obtain ⟨rfl, -⟩ := List.cons.inj heq
      simp at hc
    · have hlt : m < UInt64.size := by omega
      simp [Numeral.value, digitsValue_toDigits, hlt]
  · refine ⟨⟨true, Nat.toDigits 10 m, none, none⟩, ?_, ?_⟩
    · rw [htext, List.cons_append, scanNumeral?]
      exact scanUnsigned?_toDigits true m h
    · simpa [Numeral.value, digitsValue_toDigits, hpos] using hmin

theorem exists_toString (n : Int) :
    ∃ c cs, (toString n).toList = c :: cs ∧ (c = '-' ∨ c.isDigit) := by
  obtain ⟨m, -, htext⟩ | ⟨m, -, -, htext⟩ := toList_toString n
  · obtain ⟨c, cs, hcs, hc⟩ := exists_toDigits m
    exact ⟨c, cs, htext.trans hcs, .inr hc⟩
  · exact ⟨'-', _, htext, .inl rfl⟩

/-! ## Tokens -/

/-- The characters that are tokens by themselves. -/
def marks : List (Char × Token) :=
  [('[', .beginArr), (']', .endArr), ('\x7b', .beginObj), ('\x7d', .endObj), (',', .comma),
    (':', .colon)]

/-- `Lexes text ts rest`: a text in front of another is made of tokens. -/
def Lexes (text : List Char) (ts : List Token) (rest : List Char) : Prop :=
  ∀ held, tokensFrom held (text ++ rest) = tokensFrom (ts.reverse ++ held) rest

namespace Lexes

variable {text text' rest : List Char} {ts ts' : List Token}

theorem nil : Lexes [] [] rest := fun _ ↦ rfl

theorem append (h : Lexes text ts (text' ++ rest)) (h' : Lexes text' ts' rest) :
    Lexes (text ++ text') (ts ++ ts') rest := by
  intro held
  rw [List.append_assoc, h, h', List.reverse_append, List.append_assoc]

theorem mark {c : Char} {t : Token} (h : (c, t) ∈ marks) : Lexes [c] [t] rest := by
  intro held
  simp only [marks, List.mem_cons, List.not_mem_nil, or_false, Prod.mk.injEq] at h
  rcases h with ⟨rfl, rfl⟩ | ⟨rfl, rfl⟩ | ⟨rfl, rfl⟩ | ⟨rfl, rfl⟩ | ⟨rfl, rfl⟩ | ⟨rfl, rfl⟩ <;>
    rw [List.singleton_append, tokensFrom] <;> rfl

theorem space {c : Char} (h : isSpace c) : Lexes [c] [] rest := by
  intro held
  rw [List.singleton_append, tokensFrom.eq_def]
  simp [h]

theorem spaces (hs : ∀ c ∈ text, isSpace c) : Lexes text [] rest := by
  induction text with
  | nil => exact nil
  | cons c cs ih =>
      obtain ⟨hc, hcs⟩ := List.forall_mem_cons.mp hs
      exact append (space hc) (ih hcs)

theorem null : Lexes (scalar .null).toList [.scalar .null] rest := by
  intro held
  show tokensFrom held ('n' :: 'u' :: 'l' :: 'l' :: rest) = _
  rw [tokensFrom]
  rfl

theorem bool (b : Bool) : Lexes (scalar (.bool b)).toList [.scalar (.bool b)] rest := by
  intro held
  cases b with
  | true =>
      show tokensFrom held ('t' :: 'r' :: 'u' :: 'e' :: rest) = _
      rw [tokensFrom]
      rfl
  | false =>
      show tokensFrom held ('f' :: 'a' :: 'l' :: 's' :: 'e' :: rest) = _
      rw [tokensFrom]
      rfl

theorem quoted (s : String) : Lexes (quoted s).toList [.string (some s)] rest := by
  intro held
  have hscan := scanString_escapes [] s.toList rest
  have htext : (Json.quoted s).toList ++ rest = '"' :: (s.toList.flatMap escape ++ '"' :: rest) := by
    simp [Json.quoted]
  rw [htext, tokensFrom, if_neg (by decide)]
  split
  · rename_i ps rest' h
    obtain ⟨rfl, rfl⟩ := Prod.mk.inj (Option.some.inj (h.symm.trans hscan))
    simp
  · rename_i h
    simp [hscan] at h

theorem int {n : Int} (hn : InRange n) (h : Apart rest) :
    Lexes (toString n).toList [.scalar (.int n)] rest := by
  intro held
  obtain ⟨m, hscan, hvalue⟩ := scanNumeral?_toString hn h
  obtain ⟨c, cs, hcs, hc⟩ := exists_toString n
  have hother : ∀ d : Char, d ≠ '-' → d.isDigit = false → c ≠ d := by
    rintro d hminus hdigit rfl
    simp [hminus, hdigit] at hc
  have hspace : isSpace c = false := by simp [isSpace, hother]
  rw [hcs, List.cons_append] at hscan ⊢
  rw [tokensFrom, if_neg (by simp [hspace])]
  · split
    · rename_i m' rest' h'
      obtain ⟨rfl, rfl⟩ := Prod.mk.inj (Option.some.inj (h'.symm.trans hscan))
      simp [hvalue]
    · rename_i h'
      simp [hscan] at h'
  -- The characters for which the reader looks before it takes a text for a number.
  all_goals exact hother _ (by decide) (by decide)

end Lexes

end StoryGraph.Json
