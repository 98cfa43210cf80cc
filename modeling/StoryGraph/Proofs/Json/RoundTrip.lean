import StoryGraph.Proofs.Json.Tokens

/-!
# What is written is read back

`Takes r text r' rest` says that a text leads the reader from one state to the next, and such steps can be
put one after the other. What is written of a value leads a reader that expects one to the state after
it, by induction on the value, as long as there is room for the containers that it opens.
-/

namespace StoryGraph.Json

namespace Reading

/-- `Takes r text r' rest`: reading a text in front of another leads from one state to the next. -/
def Takes (r : Reading) (text : List Char) (r' : Reading) (rest : List Char) : Prop :=
  ∃ ts, Lexes text ts rest ∧ ∀ ts', r.run (ts ++ ts') = r'.run ts'

namespace Takes

variable {r r' r'' : Reading} {text text' rest : List Char}

theorem nil : r.Takes [] r rest := ⟨[], .nil, fun _ ↦ rfl⟩

theorem append (h : r.Takes text r' (text' ++ rest)) (h' : r'.Takes text' r'' rest) :
    r.Takes (text ++ text') r'' rest := by
  obtain ⟨ts, hlex, hrun⟩ := h
  obtain ⟨ts', hlex', hrun'⟩ := h'
  refine ⟨ts ++ ts', hlex.append hlex', ?_⟩
  intro ts''
  rw [List.append_assoc, hrun, hrun']

theorem token {t : Token} (h : Lexes text [t] rest) (hstep : r.step? t = some r') :
    r.Takes text r' rest := by
  refine ⟨[t], h, ?_⟩
  intro ts
  rw [List.singleton_append, run, hstep]

theorem margin (r : Reading) (level : Nat) (rest : List Char) :
    r.Takes (margin level).toList r rest := by
  refine ⟨[], Lexes.spaces ?_, fun _ ↦ rfl⟩
  intro c hc
  rw [Json.margin, String.toList_ofList, List.mem_cons, List.mem_replicate] at hc
  rcases hc with rfl | ⟨-, rfl⟩ <;> rfl

theorem key {s : String} (h : r.step? (.string (some s)) = some r') (rest : List Char) :
    r.Takes (quoted s).toList r' rest := token (.quoted s) h

theorem colon (done : List (Option String × Json)) (key : Option String) (around : List Frame)
    (rest : List Char) :
    (Reading.colon done key around).Takes ": ".toList (.value (.member done key :: around)) rest := by
  have hlex : Lexes ([':'] ++ [' ']) ([.colon] ++ []) rest :=
    .append (.mark (by simp [marks])) (.space rfl)
  exact ⟨[.colon], hlex, fun _ ↦ rfl⟩

/-- The comma between two items. -/
theorem itemComma (done : List Json) (around : List Frame) (rest : List Char) :
    (afterItem done around).Takes [','] (.value (.item done :: around)) rest :=
  token (t := .comma) (.mark (by simp [marks])) rfl

/-- The comma between two members. -/
theorem memberComma (done : List (Option String × Json)) (around : List Frame) (rest : List Char) :
    (afterMember done around).Takes [','] (.nextKey done around) rest :=
  token (t := .comma) (.mark (by simp [marks])) rfl

/-- A container, from what stands between its brackets. -/
theorem container {inner closing : Reading} {c d : Char} {t e : Token}
    (hc : (c, t) ∈ marks) (hbegin : r.step? t = some inner)
    (h : inner.Takes text closing ([d] ++ rest))
    (hd : (d, e) ∈ marks) (hend : closing.step? e = some r') :
    r.Takes ([c] ++ text ++ [d]) r' rest := by
  have hopen : r.Takes [c] inner (text ++ ([d] ++ rest)) := token (.mark hc) hbegin
  have hclose : closing.Takes [d] r' rest := token (.mark hd) hend
  exact (hopen.append h).append hclose

end Takes

/-- `Expects r around`: a value may begin, inside of some containers. -/
def Expects (r : Reading) (around : List Frame) : Prop :=
  ∀ t, t ≠ .endArr → r.step? t = begin? around t

theorem expects_value (around : List Frame) : Expects (.value around) around := fun _ _ ↦ rfl

theorem expects_firstItem (around : List Frame) :
    Expects (.firstItem around) (.item [] :: around) := by
  intro t ht
  cases t <;> first | rfl | contradiction

theorem afterContainer_eq_after (v : Json) {around : List Frame} (h : around.length < maxNesting) :
    afterContainer v around = after v around := by
  have hdeep : tooDeep around = false := by
    rw [tooDeep, List.drop_eq_nil_of_le (by simp only [maxNesting] at *; omega)]
    rfl
  rw [afterContainer, hdeep]
  rfl

end Reading

open Reading

/-- `Readable room v`: what is written of a value is read as the value where `room` more containers may
be open. -/
def Readable (room : Nat) (v : Json) : Prop :=
  ∀ r around level rest, Expects r around → around.length + room ≤ maxNesting → Apart rest →
    r.Takes (v.prettyAt level).toList (after v around) rest

/-- Values that can be told from what is written of them, with at most `room` containers inside each
other. -/
inductive Writable : Nat → Json → Prop where
  | null {room : Nat} : Writable room .null
  | bool {room : Nat} (b : Bool) : Writable room (.bool b)
  | int {room : Nat} {n : Int} (h : InRange n) : Writable room (.int n)
  | text {room : Nat} (s : String) : Writable room (text s)
  | arr {room : Nat} {items : List Json} (h : ∀ v ∈ items, Writable room v) :
      Writable (room + 1) (.arr items)
  | record {room : Nat} {members : List (String × Json)} (h : ∀ m ∈ members, Writable room m.2) :
      Writable (room + 1) (record members)

/-! ## One lemma for each kind of value -/

variable {room : Nat} {r : Reading} {around : List Frame} {rest : List Char}

theorem readable_scalar {v : Json} {t : Token}
    (hlex : ∀ level rest, Apart rest → Lexes (v.prettyAt level).toList [t] rest)
    (hbegin : ∀ around, begin? around t = some (after v around)) (ht : t ≠ .endArr) :
    Readable room v := by
  intro r around level rest hr _ hrest
  exact .token (hlex level rest hrest) ((hr t ht).trans (hbegin around))

theorem apart_margin (level : Nat) (rest : List Char) : Apart ((margin level).toList ++ rest) := by
  rw [margin, String.toList_ofList, List.cons_append]
  exact .cons (by decide) _

theorem prettyItems_cons_cons (level : Nat) (v w : Json) (vs : List Json) :
    prettyItems level (v :: w :: vs) =
      margin level ++ v.prettyAt level ++ "," ++ prettyItems level (w :: vs) := rfl

/-- Items, by induction on those that are still to come. The first one may stand right after the bracket
or after a comma. -/
theorem takes_items {v : Json} {vs : List Json} (h : ∀ w ∈ v :: vs, Readable room w)
    (done : List Json) (level : Nat) (hr : Expects r (.item done :: around))
    (hroom : around.length + 1 + room ≤ maxNesting) (hrest : Apart rest) :
    r.Takes (prettyItems level (v :: vs)).toList (.afterItem ((v :: vs).reverse ++ done) around)
      rest := by
  induction vs generalizing r v done with
  | nil =>
      have hitem := h v List.mem_cons_self r _ level rest hr hroom hrest
      rw [prettyItems, String.toList_append]
      exact (Takes.margin r level _).append hitem
  | cons w ws ih =>
      obtain ⟨hv, hvs⟩ := List.forall_mem_cons.mp h
      have hitem := fun rest ↦ hv r _ level (',' :: rest) hr hroom (.cons (by decide) _)
      have hcomma := Takes.itemComma (v :: done) around
      have hitems := ih hvs (v :: done) (expects_value _)
      have hdone : (v :: w :: ws).reverse ++ done = (w :: ws).reverse ++ v :: done := by simp
      rw [prettyItems_cons_cons, hdone]
      simp only [String.toList_append]
      exact (((Takes.margin r level _).append (hitem _)).append (hcomma _)).append hitems

theorem prettyMembers_cons_cons (level : Nat) (k : Option String) (v : Json)
    (m : Option String × Json) (ms : List (Option String × Json)) :
    prettyMembers level ((k, v) :: m :: ms) =
      margin level ++ quoted (k.getD "") ++ ": " ++ v.prettyAt level ++ "," ++
        prettyMembers level (m :: ms) := rfl

/-- Members, by induction on those that are still to come. The first one may stand right after the brace
or after a comma. -/
theorem takes_members {m : String × Json} {ms : List (String × Json)}
    (h : ∀ m' ∈ m :: ms, Readable room m'.2) (done : List (Option String × Json)) (level : Nat)
    (hr : ∀ key, r.step? (.string key) = some (.colon done key around))
    (hroom : around.length + 1 + room ≤ maxNesting) (hrest : Apart rest) :
    r.Takes (prettyMembers level ((m :: ms).map fun (k, v) ↦ (some k, v))).toList
      (.afterMember (((m :: ms).map fun (k, v) ↦ (some k, v)).reverse ++ done) around) rest := by
  induction ms generalizing r m done with
  | nil =>
      obtain ⟨k, v⟩ := m
      have hkey := Takes.key (hr (some k))
      have hvalue := h _ List.mem_cons_self _ _ level rest
        (expects_value (.member done (some k) :: around)) hroom hrest
      rw [List.map_singleton, prettyMembers]
      simp only [String.toList_append]
      exact (((Takes.margin r level _).append (hkey _)).append (.colon ..)).append hvalue
  | cons m' ms ih =>
      obtain ⟨k, v⟩ := m
      obtain ⟨hv, hms⟩ := List.forall_mem_cons.mp h
      have hkey := Takes.key (hr (some k))
      have hvalue := fun rest ↦ hv _ _ level (',' :: rest)
        (expects_value (.member done (some k) :: around)) hroom (.cons (by decide) _)
      have hcomma := Takes.memberComma ((some k, v) :: done) around
      have hmembers := ih (r := .nextKey ((some k, v) :: done) around) hms _ (fun _ ↦ rfl)
      have hdone : (((k, v) :: m' :: ms).map fun (k, v) ↦ (some k, v)).reverse ++ done =
          ((m' :: ms).map fun (k, v) ↦ (some k, v)).reverse ++ (some k, v) :: done := by simp
      rw [hdone, List.map_cons, List.map_cons, prettyMembers_cons_cons]
      simp only [String.toList_append]
      exact (((((Takes.margin r level _).append (hkey _)).append (.colon ..)).append
        (hvalue _)).append (hcomma _)).append hmembers

theorem readable_arr {items : List Json} (h : ∀ v ∈ items, Readable room v) :
    Readable (room + 1) (.arr items) := by
  intro r around level rest hr hroom hrest
  have hbegin : r.step? .beginArr = some (.firstItem around) := hr _ nofun
  rw [← afterContainer_eq_after _ (by omega)]
  cases items with
  | nil =>
      have htext : ((Json.arr []).prettyAt level).toList = ['['] ++ [] ++ [']'] := by
        rw [prettyAt]
        rfl
      rw [htext]
      exact .container (by simp [marks]) hbegin .nil (e := .endArr) (by simp [marks]) rfl
  | cons v vs =>
      have htext : ((Json.arr (v :: vs)).prettyAt level).toList =
          ['['] ++ ((prettyItems (level + 1) (v :: vs)).toList ++ (margin level).toList) ++ [']'] := by
        simp [prettyAt]
      have hitems := takes_items h [] (level + 1) (expects_firstItem around) (by omega)
        (apart_margin level (']' :: rest))
      rw [htext]
      refine .container (by simp [marks]) hbegin (hitems.append (.margin _ level _))
        (e := .endArr) (by simp [marks]) ?_
      simp [step?]

theorem readable_record {members : List (String × Json)} (h : ∀ m ∈ members, Readable room m.2) :
    Readable (room + 1) (record members) := by
  intro r around level rest hr hroom hrest
  have hbegin : r.step? .beginObj = some (.firstKey around) := hr _ nofun
  rw [← afterContainer_eq_after _ (by omega)]
  cases members with
  | nil =>
      have htext : ((record []).prettyAt level).toList = ['\x7b'] ++ [] ++ ['\x7d'] := by
        rw [record, List.map_nil, prettyAt]
        rfl
      rw [htext]
      exact .container (by simp [marks]) hbegin .nil (e := .endObj) (by simp [marks]) rfl
  | cons m ms =>
      have htext : ((record (m :: ms)).prettyAt level).toList =
          ['\x7b'] ++ ((prettyMembers (level + 1) ((m :: ms).map fun (k, v) ↦ (some k, v))).toList ++
            (margin level).toList) ++ ['\x7d'] := by
        simp [record, prettyAt]
      have hmembers := takes_members (r := .firstKey around) h [] (level + 1) (fun _ ↦ rfl) (by omega)
        (apart_margin level ('\x7d' :: rest))
      rw [htext]
      refine .container (by simp [marks]) hbegin (hmembers.append (.margin _ level _))
        (e := .endObj) (by simp [marks]) ?_
      simp [step?, record]

/-! ## The whole text -/

theorem readable_of_writable {v : Json} (h : Writable room v) : Readable room v := by
  induction h with
  | null => exact readable_scalar (fun _ _ _ ↦ .null) (fun _ ↦ rfl) nofun
  | bool b => exact readable_scalar (fun _ _ _ ↦ .bool b) (fun _ ↦ rfl) nofun
  | int hn => exact readable_scalar (fun _ _ hrest ↦ .int hn hrest) (fun _ ↦ rfl) nofun
  | text s => exact readable_scalar (fun _ _ _ ↦ .quoted s) (fun _ ↦ rfl) nofun
  | arr _ ih => exact readable_arr ih
  | record _ ih => exact readable_record ih

/-- What is written of a value is read as the value. -/
theorem read?_pretty {v : Json} (h : Writable maxNesting v) : read? v.pretty = some v := by
  obtain ⟨ts, hlex, hrun⟩ := readable_of_writable h (.value []) [] 0 [] (expects_value [])
    (Nat.le_of_eq (Nat.zero_add _)) nofun
  have htokens : tokens v.pretty = ts := by
    have := hlex []
    simpa [tokens, pretty, tokensFrom] using this
  have hended : (Reading.value []).run ts = .ended v true := by simpa [run, after] using hrun []
  rw [read?, scan, htokens, hended]
  rfl

end StoryGraph.Json
