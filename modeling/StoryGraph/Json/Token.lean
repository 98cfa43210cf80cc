import StoryGraph.Json.Value
import StoryGraph.Text.Decimal

/-!
# The tokens of a JSON text

`tokens` splits a text into brackets, commas, colons, strings and other scalars. It ends at the first
character that begins none of them, with the token `bad`.
-/

namespace StoryGraph.Json

open Text (digitsValue)

inductive Token where
  | beginArr
  | endArr
  | beginObj
  | endObj
  | comma
  | colon
  | string (text : Option String)
  /-- A number, a truth value or `null`. -/
  | scalar (value : Json)
  | bad
deriving Repr, BEq

/-! ## Strings -/

/-- One unit of a string: a character, or a surrogate that an escape names. -/
inductive Piece where
  | char (c : Char)
  | surrogate (n : Nat)
deriving DecidableEq, Repr

def hexValue? (c : Char) : Option Nat :=
  if c.isDigit then some (c.toNat - 48)
  else if 'a' ≤ c ∧ c ≤ 'f' then some (c.toNat - 87)
  else if 'A' ≤ c ∧ c ≤ 'F' then some (c.toNat - 55)
  else none

/-- The piece that four hexadecimal digits name. -/
def hexPiece? (a b c d : Char) : Option Piece := do
  let n := (((← hexValue? a) * 16 + (← hexValue? b)) * 16 + (← hexValue? c)) * 16 + (← hexValue? d)
  return if 0xD800 ≤ n ∧ n < 0xE000 then .surrogate n else .char (.ofNat n)

/-- The character that a letter after a backslash names. -/
def escaped? : Char → Option Char
  | '"' => some '"'
  | '\\' => some '\\'
  | '/' => some '/'
  | 'b' => some '\x08'
  | 'f' => some '\x0c'
  | 'n' => some '\n'
  | 'r' => some '\r'
  | 't' => some '\t'
  | _ => none

/-- The pieces up to the closing quotation mark, and what follows it. The pieces read already are
held backwards. -/
def scanString (held : List Piece) : List Char → Option (List Piece × List Char)
  | [] => none
  | '"' :: cs => some (held.reverse, cs)
  | '\\' :: 'u' :: a :: b :: c :: d :: cs =>
      match hexPiece? a b c d with
      | some p => scanString (p :: held) cs
      | none => none
  | '\\' :: e :: cs =>
      match escaped? e with
      | some c => scanString (.char c :: held) cs
      | none => none
  | c :: cs => if c.toNat < 0x20 ∨ c = '\\' then none else scanString (.char c :: held) cs

/-- The characters of the pieces: a high surrogate joins the low one right after it, and a surrogate
without its partner has no character. -/
def joinPieces : List Piece → Option (List Char)
  | [] => some []
  | .char c :: ps => (joinPieces ps).map (c :: ·)
  | .surrogate h :: .surrogate l :: ps =>
      if h < 0xDC00 ∧ 0xDC00 ≤ l then
        (joinPieces ps).map (.ofNat (0x10000 + (h - 0xD800) * 0x400 + (l - 0xDC00)) :: ·)
      else none
  | .surrogate _ :: _ => none

theorem length_lt_of_scanString {held ps : List Piece} {cs rest : List Char}
    (h : scanString held cs = some (ps, rest)) : rest.length < cs.length := by
  fun_induction scanString held cs <;> simp_all <;> omega

/-! ## Numbers -/

/-- The parts of a number as written. -/
structure Numeral where
  negative : Bool
  digits : List Char
  /-- The digits after the point, if there is one. -/
  fraction : Option (List Char)
  /-- The sign and the digits of the exponent, if there is one. -/
  exponent : Option (Bool × List Char)
deriving DecidableEq, Repr

/-- One or more digits, and what follows them. -/
def scanDigits? (cs : List Char) : Option (List Char × List Char) :=
  let ds := cs.takeWhile Char.isDigit
  if ds.isEmpty then none else some (ds, cs.dropWhile Char.isDigit)

/-- The digits before the point: no zero stands before another digit. -/
def scanInteger? (cs : List Char) : Option (List Char × List Char) :=
  (scanDigits? cs).filter fun (ds, _) ↦ ds.length = 1 || ds.head? != some '0'

def scanFraction? : List Char → Option (Option (List Char) × List Char)
  | '.' :: cs => (scanDigits? cs).map fun (ds, rest) ↦ (some ds, rest)
  | cs => some (none, cs)

def scanExponent? : List Char → Option (Option (Bool × List Char) × List Char)
  | c :: cs =>
      if c = 'e' ∨ c = 'E' then
        match cs with
        | '-' :: cs => (scanDigits? cs).map fun (ds, rest) ↦ (some (true, ds), rest)
        | '+' :: cs => (scanDigits? cs).map fun (ds, rest) ↦ (some (false, ds), rest)
        | cs => (scanDigits? cs).map fun (ds, rest) ↦ (some (false, ds), rest)
      else some (none, c :: cs)
  | [] => some (none, [])

/-- The number after its sign. -/
def scanUnsigned? (negative : Bool) (cs : List Char) : Option (Numeral × List Char) := do
  let (digits, cs) ← scanInteger? cs
  let (fraction, cs) ← scanFraction? cs
  let (exponent, cs) ← scanExponent? cs
  return (⟨negative, digits, fraction, exponent⟩, cs)

def scanNumeral? : List Char → Option (Numeral × List Char)
  | '-' :: cs => scanUnsigned? true cs
  | cs => scanUnsigned? false cs

theorem length_lt_of_scanDigits? {cs ds rest : List Char} (h : scanDigits? cs = some (ds, rest)) :
    rest.length < cs.length := by
  cases cs with
  | nil => simp [scanDigits?] at h
  | cons c cs =>
      simp only [scanDigits?, List.takeWhile_cons, List.dropWhile_cons] at h
      split at h
      · simp only [List.isEmpty_cons, Bool.false_eq_true, if_false, Option.some.injEq,
          Prod.mk.injEq] at h
        have := (List.dropWhile_suffix (l := cs) Char.isDigit).length_le
        rw [← h.2]
        simp only [List.length_cons]
        omega
      · simp at h

theorem length_lt_of_scanInteger? {cs ds rest : List Char}
    (h : scanInteger? cs = some (ds, rest)) : rest.length < cs.length :=
  length_lt_of_scanDigits? (Option.filter_eq_some_iff.mp h).1

theorem length_le_of_scanFraction? {cs rest : List Char} {ds : Option (List Char)}
    (h : scanFraction? cs = some (ds, rest)) : rest.length ≤ cs.length := by
  unfold scanFraction? at h
  split at h
  · obtain ⟨⟨ds', rest'⟩, h', he⟩ := Option.map_eq_some_iff.mp h
    have := length_lt_of_scanDigits? h'
    simp only [Prod.mk.injEq] at he
    rw [← he.2]
    simp only [List.length_cons]
    omega
  · simp_all

theorem length_le_of_scanExponent? {cs rest : List Char} {e : Option (Bool × List Char)}
    (h : scanExponent? cs = some (e, rest)) : rest.length ≤ cs.length := by
  unfold scanExponent? at h
  split at h
  · split at h
    · split at h
      all_goals
        obtain ⟨⟨ds', rest'⟩, h', he⟩ := Option.map_eq_some_iff.mp h
        have := length_lt_of_scanDigits? h'
        simp only [Prod.mk.injEq] at he
        rw [← he.2]
        simp only [List.length_cons]
        omega
    · simp_all
  · simp_all

theorem length_lt_of_scanNumeral? {cs rest : List Char} {n : Numeral}
    (h : scanNumeral? cs = some (n, rest)) : rest.length < cs.length := by
  have key : ∀ {b : Bool} {cs : List Char}, scanUnsigned? b cs = some (n, rest) →
      rest.length < cs.length := by
    intro b cs h
    simp only [scanUnsigned?, Option.bind_eq_bind, Option.bind_eq_some_iff, Prod.exists,
      Option.pure_def, Option.some.injEq, Prod.mk.injEq] at h
    obtain ⟨_, _, h₁, _, _, h₂, _, _, h₃, _, rfl⟩ := h
    have := length_lt_of_scanInteger? h₁
    have := length_le_of_scanFraction? h₂
    have := length_le_of_scanExponent? h₃
    omega
  unfold scanNumeral? at h
  split at h
  · have := key h
    simp only [List.length_cons]
    omega
  · exact key h

/-- The longest beginning of the digits whose value takes 64 bits: its value, and how many digits are
left over. -/
def significand (value : Nat) : List Char → Nat × Nat
  | [] => (value, 0)
  | c :: cs =>
      let next := 10 * value + (c.toNat - 48)
      if next < UInt64.size then significand next cs else (value, cs.length + 1)

/-- Whether `m * 10 ^ e`, multiplied out in double precision, is finite. -/
def scaledInRange (m : Nat) (e : Int) : Bool :=
  m = 0 || e < 0 ||
    (e ≤ 308 && (m.toUInt64.toFloat * OfScientific.ofScientific 1 false e.toNat).isFinite)

namespace Numeral

/-- Whether a double can hold the number. -/
def inRange (n : Numeral) : Bool :=
  let fraction := n.fraction.getD []
  let (m, dropped) := significand 0 (n.digits ++ fraction)
  let exponent : Int := match n.exponent with
    | some (true, ds) => -digitsValue ds
    | some (false, ds) => digitsValue ds
    | none => 0
  scaledInRange m (dropped - fraction.length + exponent)

/-- An integer of 64 bits, signed or not, keeps its value; a minus sign makes zero a real number. -/
def value (n : Numeral) : Json :=
  let m := digitsValue n.digits
  if n.fraction.isSome || n.exponent.isSome then .real n.inRange
  else if n.negative then
    if 0 < m ∧ Int64.minValue.toInt ≤ -m then .int (-m) else .real n.inRange
  else if m < UInt64.size then .int m
  else .real n.inRange

end Numeral

/-! ## The whole text -/

def isSpace (c : Char) : Bool := c = ' ' || c = '\t' || c = '\n' || c = '\r'

/-- The tokens of a text, after those read already, which are held backwards. -/
def tokensFrom (held : List Token) : List Char → List Token
  | [] => held.reverse
  | c :: cs =>
      if isSpace c then tokensFrom held cs
      else match c with
        | '[' => tokensFrom (.beginArr :: held) cs
        | ']' => tokensFrom (.endArr :: held) cs
        | '\x7b' => tokensFrom (.beginObj :: held) cs
        | '\x7d' => tokensFrom (.endObj :: held) cs
        | ',' => tokensFrom (.comma :: held) cs
        | ':' => tokensFrom (.colon :: held) cs
        | '"' =>
            match h : scanString [] cs with
            | some (ps, rest) =>
                have := length_lt_of_scanString h
                tokensFrom (.string ((joinPieces ps).map .ofList) :: held) rest
            | none => (.bad :: held).reverse
        | 'n' =>
            match cs with
            | 'u' :: 'l' :: 'l' :: rest => tokensFrom (.scalar .null :: held) rest
            | _ => (.bad :: held).reverse
        | 't' =>
            match cs with
            | 'r' :: 'u' :: 'e' :: rest => tokensFrom (.scalar (.bool true) :: held) rest
            | _ => (.bad :: held).reverse
        | 'f' =>
            match cs with
            | 'a' :: 'l' :: 's' :: 'e' :: rest => tokensFrom (.scalar (.bool false) :: held) rest
            | _ => (.bad :: held).reverse
        | c =>
            match h : scanNumeral? (c :: cs) with
            | some (n, rest) =>
                have := length_lt_of_scanNumeral? h
                tokensFrom (.scalar n.value :: held) rest
            | none => (.bad :: held).reverse
termination_by cs => cs.length
decreasing_by all_goals simp_all <;> omega

def tokens (text : String) : List Token := tokensFrom [] text.toList

end StoryGraph.Json
