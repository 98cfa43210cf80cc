import StoryGraph.Document.Options
import StoryGraph.Proofs.Document.RoundTrip
import StoryGraph.Proofs.Indent
import StoryGraph.Proofs.Outcome

/-!
# An indent among options

A text of options is read member by member, and so is an array, whose items are the members in their order. What
is read as an indent is read as it is by itself; the other members see of it only that there is one.
-/

namespace StoryGraph

namespace Options

/-! ## Members -/

/-- The items of an array as members. Those for which there is no name left have none. -/
def named : List String → List Json → List (Option String × Json)
  | _, [] => []
  | [], v :: items => (none, v) :: named [] items
  | key :: keys, v :: items => (some key, v) :: named keys items

/-- The members of options, if they are an object or an array. -/
def members? : Json → Option (List (Option String × Json))
  | .obj members => some members
  | .arr items => some (named ["indent", "max_depth"] items)
  | _ => none

/-- `Gives text before s after clean`: a text of options gives a string as the indent, and no other member before
it is one. It is JSON from there to its end if it is `clean`. -/
structure Gives (text : String) (before : List (Option String × Json)) (s : String)
    (after : List (Option String × Json)) (clean : Bool) : Prop where
  members : members? (Json.scan text).1 = some (before ++ (some "indent", .text s) :: after)
  ends : (Json.scan text).2 = clean
  first : ∀ m ∈ before, m.1 ≠ some "indent"

namespace Given

variable {g g' : Given} {i : Indent} {key : String} {v : Json} {e : Error}
  {ms before after : List (Option String × Json)}

theorem readItems_eq_readMembers (g : Given) (keys : List String) (items : List Json) :
    g.readItems keys items = g.readMembers (named keys items) := by
  induction keys, items using named.induct generalizing g with
  | case1 keys => cases keys <;> rfl
  | case2 v items => rfl
  | case3 key keys v items ih =>
      rw [readItems, named, readMembers]
      exact congrArg _ (funext ih)

theorem readMembers_append (g : Given) (before after : List (Option String × Json)) :
    g.readMembers (before ++ after) = g.readMembers before >>= (·.readMembers after) := by
  induction before generalizing g with
  | nil => rfl
  | cons m before ih =>
      obtain ⟨_ | key, v⟩ := m
      · rfl
      · rw [List.cons_append, readMembers, readMembers]
        cases g.read key v with
        | error e => rfl
        | ok g' => exact ih g'

/-! ## The indent -/

/-- What is given, with another indent. -/
def withIndent (g : Given) (i : Indent) : Given := { g with indent := some i }

theorem read_indent (hnone : g.indent = none) (s : String) :
    g.read "indent" (.text s) = match Indent.parse s with
      | .ok i => .ok (g.withIndent i)
      | .error _ => .error (.malformed (some (Text.trim s))) := by
  simp only [read, hnone, Indent.ofJson, Indent.textOf?, Json.text]
  cases Indent.parse s <;> rfl

/-- `g.PassesOver ms`: of some members none becomes the indent, since one is given or none of them is one. -/
def PassesOver (g : Given) (ms : List (Option String × Json)) : Prop :=
  g.indent.isSome ∨ ∀ m ∈ ms, m.1 ≠ some "indent"

theorem PassesOver.head (h : g.PassesOver ((some key, v) :: ms)) : key ≠ "indent" ∨ g.indent.isSome := by
  rcases h with hsome | hothers
  · exact .inr hsome
  · exact .inl fun heq ↦ hothers (some key, v) List.mem_cons_self (congrArg some heq)

theorem PassesOver.tail {m : Option String × Json} (h : g.PassesOver (m :: ms)) (depth : Option UInt64) :
    PassesOver { g with maxDepth := depth } ms := by
  rcases h with hsome | hothers
  · exact .inl hsome
  · exact .inr fun m' hm' ↦ hothers m' (List.mem_cons_of_mem _ hm')

/-- A member that does not become the indent is refused, and not by name, or it gives at most a depth. -/
theorem read_cases (hother : key ≠ "indent" ∨ g.indent.isSome) (v : Json) :
    g.read key v = .error (.malformed none) ∨ ∃ depth, g.read key v = .ok { g with maxDepth := depth } := by
  unfold read
  split
  · rw [if_pos (hother.resolve_left (not_not_intro rfl))]
    exact .inl rfl
  · split
    · exact .inr ⟨_, rfl⟩
    · exact .inl rfl
  · exact .inr ⟨g.maxDepth, rfl⟩

/-- Of an indent that is given, other members see only that it is. -/
theorem read_withIndent (hsome : g.indent.isSome) (i : Indent) (key : String) (v : Json) :
    (g.withIndent i).read key v = (g.read key v).map (·.withIndent i) := by
  unfold read
  split
  · simp [withIndent, hsome, Except.map]
  · simp only [withIndent]
    cases g.maxDepth <;> cases v.uint64? <;> rfl
  · rfl

/-! ## Members before and behind the indent -/

theorem readMembers_cases (hpasses : g.PassesOver ms) :
    g.readMembers ms = .error (.malformed none) ∨ ∃ depth, g.readMembers ms = .ok { g with maxDepth := depth } := by
  induction ms generalizing g with
  | nil => exact .inr ⟨g.maxDepth, rfl⟩
  | cons m ms ih =>
      obtain ⟨_ | key, v⟩ := m
      · exact .inl rfl
      · rw [readMembers]
        rcases read_cases hpasses.head v with hread | ⟨depth, hread⟩
        · rw [hread]
          exact .inl rfl
        · rw [hread]
          exact ih (hpasses.tail depth)

theorem indent_of_readMembers (hpasses : g.PassesOver ms) (h : g.readMembers ms = .ok g') :
    g'.indent = g.indent := by
  rcases readMembers_cases hpasses with hrefused | ⟨depth, hread⟩
  · simp [hrefused] at h
  · obtain rfl := Except.ok.inj (hread.symm.trans h)
    rfl

theorem eq_of_readMembers_eq_error (hpasses : g.PassesOver ms) (h : g.readMembers ms = .error e) :
    e = .malformed none := by
  rcases readMembers_cases hpasses with hrefused | ⟨depth, hread⟩
  · exact (Except.error.inj (hrefused.symm.trans h)).symm
  · simp [hread] at h

theorem readMembers_withIndent (hsome : g.indent.isSome) (i : Indent) (ms : List (Option String × Json)) :
    (g.withIndent i).readMembers ms = (g.readMembers ms).map (·.withIndent i) := by
  induction ms generalizing g with
  | nil => rfl
  | cons m ms ih =>
      obtain ⟨_ | key, v⟩ := m
      · rfl
      · have hother : key ≠ "indent" ∨ g.indent.isSome := .inr hsome
        rw [readMembers, readMembers, read_withIndent hsome]
        rcases read_cases hother v with hread | ⟨depth, hread⟩
        · rw [hread]
          rfl
        · rw [hread]
          exact ih hsome

/-- The options of what is given, if the text is JSON to its end. -/
def finish (clean : Bool) (g : Given) : Except Error Options :=
  if clean then .ok g.toOptions else .error (.malformed none)

theorem finish_withIndent (clean : Bool) (g : Given) (i : Indent) :
    (g.withIndent i).finish clean = (g.finish clean).map fun o ↦ { o with indent := i } := by
  cases clean <;> rfl

end Given

/-! ## The whole text -/

theorem ofText_of_members {text : String} {ms : List (Option String × Json)}
    (h : members? (Json.scan text).1 = some ms) :
    ofText text = Given.readMembers ⟨none, none⟩ ms >>= Given.finish (Json.scan text).2 := by
  unfold ofText
  generalize Json.scan text = scanned at h ⊢
  obtain ⟨v, clean⟩ := scanned
  cases v with
  | obj members =>
      obtain rfl := Option.some.inj h
      rfl
  | arr items =>
      obtain rfl := Option.some.inj h
      rw [← Given.readItems_eq_readMembers]
      rfl
  | _ => contradiction

namespace Gives

variable {text text' s s' : String} {before after : List (Option String × Json)} {clean : Bool}
  {o o' : Options} {i i' : Indent}

/-- A text that gives an indent is read up to there, then the indent is read as it is by itself, and then the
rest. -/
theorem ofText_eq (h : Gives text before s after clean) :
    ofText text = Given.readMembers ⟨none, none⟩ before >>= fun g ↦
      match Indent.parse s with
      | .ok i => (g.withIndent i).readMembers after >>= Given.finish clean
      | .error _ => .error (.malformed (some (Text.trim s))) := by
  rw [ofText_of_members h.members, h.ends, Given.readMembers_append]
  cases hbefore : Given.readMembers ⟨none, none⟩ before with
  | error e => rw [error_bind, error_bind, error_bind]
  | ok g =>
      have hnone : g.indent = none := Given.indent_of_readMembers (.inr h.first) hbefore
      show (g.readMembers ((some "indent", .text s) :: after) >>= Given.finish clean) = _
      rw [Given.readMembers, Given.read_indent hnone]
      cases Indent.parse s <;> rfl

/-- Options that are read have the indent that the string is read as. -/
theorem parse_of_ofText_eq_ok (h : Gives text before s after clean) (hok : ofText text = .ok o) :
    Indent.parse s = .ok o.indent := by
  rw [h.ofText_eq] at hok
  obtain ⟨g, -, hrest⟩ := bind_eq_ok.mp hok
  split at hrest
  · rename_i i hparse
    obtain ⟨g', hafter, hfinish⟩ := bind_eq_ok.mp hrest
    have hindent : g'.indent = some i := Given.indent_of_readMembers (.inl rfl) hafter
    unfold Given.finish at hfinish
    split at hfinish
    · obtain rfl := Except.ok.inj hfinish
      rw [hparse, Given.toOptions, hindent]
      rfl
    · contradiction
  · contradiction

/-- A text that is refused by the name of an indent is refused for this string. -/
theorem parse_of_ofText_eq_error {t : String} (h : Gives text before s after clean)
    (herror : ofText text = .error (.malformed (some t))) : Indent.parse s = .error (.invalidIndent t) := by
  rw [h.ofText_eq] at herror
  rcases bind_eq_error.mp herror with hbefore | ⟨g, -, hrest⟩
  · exact absurd (Given.eq_of_readMembers_eq_error (.inr h.first) hbefore) (by simp)
  · split at hrest
    · rcases bind_eq_error.mp hrest with hafter | ⟨g', -, hfinish⟩
      · exact absurd (Given.eq_of_readMembers_eq_error (.inl rfl) hafter) (by simp)
      · unfold Given.finish at hfinish
        split at hfinish <;> simp at hfinish
    · rename_i e hparse
      obtain rfl : Text.trim s = t := by simpa using hrest
      rw [hparse, (Indent.parse_eq_error_iff.mp hparse).2]

/-- Where what comes before it is read, a string that is refused is named, whatever comes behind it. -/
theorem ofText_of_parse_eq_error {g : Given} {t : String} (h : Gives text before s after clean)
    (hbefore : Given.readMembers ⟨none, none⟩ before = .ok g)
    (hparse : Indent.parse s = .error (.invalidIndent t)) : ofText text = .error (.malformed (some t)) := by
  obtain rfl : t = Text.trim s := Error.invalidIndent.inj (Indent.parse_eq_error_iff.mp hparse).2
  rw [h.ofText_eq]
  refine bind_eq_error.mpr (.inr ⟨g, hbefore, ?_⟩)
  rw [hparse]

/-- In the place of a string with which a text is read, another one that is an indent is read. -/
theorem ofText_exchange (h : Gives text before s after clean) (h' : Gives text' before s' after clean)
    (hok : ofText text' = .ok o') (hparse : Indent.parse s = .ok i) :
    ofText text = .ok { o' with indent := i } := by
  have hparse' := h'.parse_of_ofText_eq_ok hok
  rw [h'.ofText_eq, hparse'] at hok
  obtain ⟨g, hbefore, hrest⟩ := bind_eq_ok.mp hok
  obtain ⟨g', hafter, hfinish⟩ := bind_eq_ok.mp hrest
  have hafter' : (g.withIndent i).readMembers after = .ok (g'.withIndent i) := by
    have hagain := Given.readMembers_withIndent (g := g.withIndent o'.indent) rfl i after
    rwa [hafter] at hagain
  have hfinish' : (g'.withIndent i).finish clean = .ok { o' with indent := i } := by
    rw [Given.finish_withIndent, hfinish]
    rfl
  rw [h.ofText_eq, hparse]
  exact bind_eq_ok.mpr ⟨g, hbefore, bind_eq_ok.mpr ⟨_, hafter', hfinish'⟩⟩

/-- With nothing but an indent the other options are the usual ones. -/
theorem ofText_of_alone (h : Gives text [] s [] true) (hparse : Indent.parse s = .ok i) :
    ofText text = .ok { (default : Options) with indent := i } := by
  rw [h.ofText_eq, hparse]
  rfl

end Gives

/-- Any string can be given among any other members that can be written. -/
theorem gives_pretty (before after : List (String × Json)) (s : String)
    (hwritable : ∀ m ∈ before ++ after, Json.Writable 126 m.2) (hfirst : ∀ m ∈ before, m.1 ≠ "indent") :
    Gives (Json.record (before ++ ("indent", .text s) :: after)).pretty
      (before.map fun (key, v) ↦ (some key, v)) s (after.map fun (key, v) ↦ (some key, v)) true := by
  obtain ⟨hbefore, hafter⟩ := List.forall_mem_append.mp hwritable
  have hall : Json.Writable Json.maxNesting (Json.record (before ++ ("indent", .text s) :: after)) :=
    .record (List.forall_mem_append.mpr ⟨hbefore, List.forall_mem_cons.mpr ⟨.text s, hafter⟩⟩)
  have hread := Json.read?_pretty hall
  unfold Json.read? at hread
  split at hread
  · rename_i v hscan
    obtain rfl := Option.some.inj hread
    refine ⟨?_, congrArg Prod.snd hscan, ?_⟩
    · rw [hscan, Json.record, members?, List.map_append, List.map_cons]
    · intro m hm hkey
      obtain ⟨m', hm', rfl⟩ := List.mem_map.mp hm
      exact hfirst m' hm' (Option.some.inj hkey)
  · contradiction

end Options

/-- A text is read as an indent exactly if what stands between the blanks at its ends spells that indent, and
otherwise it is refused by that. Given as the indent of options it is read in the same way. Options that are read
have that indent; if they are refused by the name of an indent, it is that name; where it is refused so are they,
by that name, unless they have been before; and where they are read with another string in its place, all else
being the same, they are read with it if it is an indent. Any string can be given, and alone it is enough. -/
theorem Indent.parse_exact (s : String) :
    ∃ t, Text.Trims s t ∧ (∀ t', Text.Trims s t' → t' = t) ∧
      (∀ indent, parse s = .ok indent ↔ Spells t indent) ∧
      (∀ e, parse s = .error e ↔ (¬ ∃ indent, Spells t indent) ∧ e = .invalidIndent t) ∧
      (∀ text before after clean, Options.Gives text before s after clean →
        (∀ o, Options.ofText text = .ok o → parse s = .ok o.indent) ∧
        (∀ name, Options.ofText text = .error (.malformed (some name)) →
          parse s = .error (.invalidIndent name)) ∧
        (∀ g name, Options.Given.readMembers ⟨none, none⟩ before = .ok g →
          parse s = .error (.invalidIndent name) → Options.ofText text = .error (.malformed (some name))) ∧
        ∀ text' s' o' indent, Options.Gives text' before s' after clean → Options.ofText text' = .ok o' →
          parse s = .ok indent → Options.ofText text = .ok { o' with indent }) ∧
      ∃ text, Options.Gives text [] s [] true ∧
        ∀ indent, Options.ofText text = .ok { (default : Options) with indent } ↔ parse s = .ok indent := by
  have halone := Options.gives_pretty [] [] s (by simp) (by simp)
  refine ⟨Text.trim s, Text.trims_iff.mpr rfl, fun t' ht' ↦ (Text.trims_iff.mp ht').symm,
    fun _ ↦ parse_eq_ok_iff, fun _ ↦ parse_eq_error_iff, ?_,
    _, halone, fun _ ↦ ⟨halone.parse_of_ofText_eq_ok, halone.ofText_of_alone⟩⟩
  intro text before after clean h
  refine ⟨fun o ↦ h.parse_of_ofText_eq_ok, fun name ↦ h.parse_of_ofText_eq_error,
    fun g name ↦ h.ofText_of_parse_eq_error, ?_⟩
  intro text' s' o' indent h' hok hparse
  exact h.ofText_exchange h' hok hparse

/-- The text of options with a depth and then an indent. -/
def depthAndIndent (indent : String) : String :=
  (Json.record [("max_depth", .int 16), ("indent", .text indent)]).pretty

/-- Zeros in front and blanks around leave the width as it is. The width after that is too wide. -/
theorem Indent.parse_exact_widest :
    parse "\u3000+000255\n" = .ok (.spaces 255) ∧ parse "\u3000+256\n" = .error (.invalidIndent "+256") ∧
      Options.ofText (depthAndIndent "\u3000+000255\n") = .ok ⟨.spaces 255, 16⟩ ∧
      Options.ofText (depthAndIndent "\u3000+256\n") = .error (.malformed (some "+256")) := by
  have hgives (indent : String) :
      Options.Gives (depthAndIndent indent) [(some "max_depth", .int 16)] indent [] true := by
    have hwritable : ∀ m ∈ [("max_depth", Json.int 16)] ++ [], Json.Writable 126 m.2 :=
      List.forall_mem_singleton.mpr (.int (Json.inRange_toNat 16))
    exact Options.gives_pretty [("max_depth", .int 16)] [] indent hwritable (by simp)
  have hdepth : Options.Given.readMembers ⟨none, none⟩ [(some "max_depth", .int 16)] =
      .ok ⟨none, some 16⟩ := rfl
  have htab : Options.ofText (depthAndIndent "tab") = .ok ⟨.tab, 16⟩ := by
    rw [(hgives "tab").ofText_eq, hdepth]
    rfl
  obtain ⟨t, ht, -, hok, -, hoptions, -⟩ := parse_exact "\u3000+000255\n"
  obtain ⟨t', ht', -, -, herror, hoptions', -⟩ := parse_exact "\u3000+256\n"
  obtain rfl : t = "+000255" := (Text.trims_iff.mp ht).symm.trans (by decide)
  have hspells : Spells (.ofList (['+'] ++ ['0', '0', '0', '2', '5', '5'])) (.spaces 255) :=
    .width (.inr rfl) (by decide) (by simp) (by decide) (by decide)
  have hparse : parse "\u3000+000255\n" = .ok (.spaces 255) := (hok _).mpr hspells
  have hrefused : parse "\u3000+256\n" = .error (.invalidIndent "+256") := by decide
  obtain ⟨-, -, -, hexchange⟩ := hoptions _ _ _ _ (hgives _)
  obtain ⟨-, -, hnamed, -⟩ := hoptions' _ _ _ _ (hgives _)
  exact ⟨hparse, hrefused, hexchange _ _ _ _ (hgives _) htab hparse, hnamed _ _ hdepth hrefused⟩

end StoryGraph
