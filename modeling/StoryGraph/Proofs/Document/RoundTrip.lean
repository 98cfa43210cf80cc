import StoryGraph.Document.Project
import StoryGraph.Proofs.Json.RoundTrip

/-!
# Documents are read back as they were

The JSON form of each part of a document can be told from its text, and decodes to the part. The form of a
bubble is the one that takes care: it tells the kind among the fields that every bubble has, and names of
kinds that hold nothing are left out.
-/

namespace StoryGraph

open Json (text record)

namespace Json

/-! ## Records -/

theorem members?_record (members : List (String × Json)) :
    (record members).members? = some members := by
  rw [record, members?]
  induction members with
  | nil => rfl
  | cons m ms ih => simp_all

section

variable {names : List String} {known others : List (String × Json)}

/-- Members are selected by their names, in their order. -/
theorem select?_append (hnodup : (known.map Prod.fst).Nodup) (hknown : ∀ m ∈ known, m.1 ∈ names)
    (hothers : ∀ m ∈ others, m.1 ∉ names) : select? names (known ++ others) = some known := by
  simp only [select?]
  rw [List.filter_append, List.filter_eq_self.mpr (by simpa using hknown),
    List.filter_eq_nil_iff.mpr (by simpa using hothers), List.append_nil, if_pos hnodup]

theorem fields?_record (hnodup : (known.map Prod.fst).Nodup) (hknown : ∀ m ∈ known, m.1 ∈ names) :
    (record known).fields? names = some known := by
  have hselect : select? names (known ++ []) = some known := select?_append hnodup hknown (by simp)
  rw [List.append_nil] at hselect
  show ((record known).members?).bind (select? names) = _
  rw [members?_record, Option.bind_some, hselect]

end

theorem list?_map {α : Type} {toJson : α → Json} {ofJson? : Json → Option α} (xs : List α)
    (h : ∀ x ∈ xs, ofJson? (toJson x) = some x) :
    list? ofJson? (.arr (xs.map toJson)) = some xs := by
  rw [list?]
  induction xs with
  | nil => rfl
  | cons x xs ih =>
      obtain ⟨hx, hxs⟩ := List.forall_mem_cons.mp h
      simp [hx, ih hxs]

/-! ## Texts and numbers -/

@[simp] theorem text?_text (s : String) : (text s).text? = some s := rfl

@[simp] theorem nullable?_text (s : String) : nullable? text? (text s) = some (some s) := rfl

theorem uint32?_toNat (n : UInt32) : uint32? (.int n.toNat) = some n := by
  have hlt : n.toNat < UInt32.size := n.toNat_lt
  simp [uint32?, natBelow?, hlt]

theorem int64?_toInt (n : Int64) : int64? (.int n.toInt) = some n := by
  rw [int64?, if_pos ⟨n.minValue_le_toInt, n.toInt_le⟩]
  exact congrArg some n.ofInt_toInt

theorem inRange_toNat (n : UInt32) : InRange n.toNat := by
  have hlt := n.toNat_lt
  exact ⟨Int.le_trans (by decide) (Int.natCast_nonneg _), Int.ofNat_lt.mpr (Nat.lt_trans hlt (by decide))⟩

theorem inRange_toInt (n : Int64) : InRange n.toInt :=
  ⟨n.minValue_le_toInt, Int.lt_trans n.toInt_lt (by decide)⟩

/-! ## Values that can be written can be held -/

theorem plainItems_iff {items : List Json} : plainItems items ↔ ∀ v ∈ items, v.plain := by
  induction items with
  | nil => simp [plainItems]
  | cons v vs ih => simp [plainItems, ih]

theorem plainMembers_iff {members : List (Option String × Json)} :
    plainMembers members ↔ ∀ m ∈ members, m.1.isSome ∧ m.2.plain := by
  induction members with
  | nil => simp [plainMembers]
  | cons m ms ih => simp [plainMembers, ih]

theorem plain_of_writable {room : Nat} {v : Json} (h : Writable room v) : v.plain := by
  induction h with
  | null | bool | int | text => rfl
  | arr _ ih => exact plainItems_iff.mpr ih
  | record _ ih =>
      refine plainMembers_iff.mpr ?_
      intro m hm
      obtain ⟨m', hm', rfl⟩ := List.mem_map.mp hm
      exact ⟨rfl, ih m' hm'⟩

theorem Writable.list {α : Type} {room : Nat} {toJson : α → Json} (xs : List α)
    (h : ∀ x, Writable room (toJson x)) : Writable (room + 1) (.arr (xs.map toJson)) := by
  refine .arr ?_
  intro v hv
  obtain ⟨x, -, rfl⟩ := List.mem_map.mp hv
  exact h x

end Json

open Json (Writable)

variable {room : Nat}

/-! ## The parts of a scene -/

theorem Uid.writable_toJson (u : Uid) : Writable room u.toJson := .int (Json.inRange_toNat u.val)

theorem Uid.ofJson?_toJson (u : Uid) : ofJson? u.toJson = some u := by
  rw [toJson, ofJson?, toNat, Json.uint32?_toNat]
  rfl

theorem ConnectionId.writable_toJson (id : ConnectionId) : Writable room id.toJson :=
  .int (Json.inRange_toNat id.val)

theorem ConnectionId.ofJson?_toJson (id : ConnectionId) : ofJson? id.toJson = some id := by
  rw [toJson, ofJson?, toNat, Json.uint32?_toNat]
  rfl

theorem Exit.ofJson?_toJson (e : Exit) : ofJson? e.toJson = some e := by
  cases e <;> rfl

theorem Anchor.ofJson?_toJson (a : Anchor) : ofJson? a.toJson = some a := by
  cases a <;> rfl

theorem BubbleType.ofName?_name (t : BubbleType) : ofName? t.name = some t := by
  cases t <;> rfl

namespace Connection

theorem writable_toJson (c : Connection) : Writable (room + 1) c.toJson := by
  refine .record ?_
  simp only [List.forall_mem_cons]
  exact ⟨c.id.writable_toJson, c.slot.source.writable_toJson, .text _, c.target.writable_toJson, .text _,
    .text _, nofun⟩

theorem ofJson?_toJson (c : Connection) : ofJson? c.toJson = some c := by
  rw [toJson, ofJson?, Json.fields?_record (by simp) (by simp)]
  simp [Json.Fields.required?, Json.Fields.optional?, List.lookup_cons, c.id.ofJson?_toJson,
    Uid.ofJson?_toJson, Exit.ofJson?_toJson, Anchor.ofJson?_toJson]

end Connection

namespace ChoiceOption

theorem writable_toJson (o : ChoiceOption) : Writable (room + 1) o.toJson := by
  refine .record ?_
  simp only [List.forall_mem_cons]
  exact ⟨o.uid.writable_toJson, .text _, nofun⟩

theorem ofJson?_toJson (o : ChoiceOption) : ofJson? o.toJson = some o := by
  rw [toJson, ofJson?, Json.fields?_record (by simp) (by simp)]
  simp [Json.Fields.required?, Json.Fields.optional?, List.lookup_cons, o.uid.ofJson?_toJson]

end ChoiceOption

/-! ## Bubbles -/

namespace BubbleKind

theorem writable_of_mem_members (k : BubbleKind) {m : String × Json} (hm : m ∈ k.members) :
    Writable (room + 2) m.2 := by
  rcases List.mem_cons.mp hm with rfl | hm
  · exact .text _
  · cases k with
    | start => simp [payload] at hm
    | story | action | condition =>
        obtain rfl := List.mem_singleton.mp hm
        exact .text _
    | choice options =>
        obtain rfl := List.mem_singleton.mp hm
        exact .list options ChoiceOption.writable_toJson

theorem ofFields?_payload (k : BubbleKind) : ofFields? k.type k.payload = some k := by
  cases k with
  | choice options =>
      have hoptions := Json.list?_map options fun o _ ↦ o.ofJson?_toJson
      simp [ofFields?, type, payload, Json.Fields.optional?, hoptions]
  | _ => simp [ofFields?, type, payload, Json.Fields.optional?]

/-- A kind is read from its members, however its type is read. -/
theorem ofMembers?_members (k : BubbleKind) {readType : Json → Option BubbleType}
    (h : readType k.type.toJson = some k.type) : ofMembers? readType k.members = some k := by
  have hplain : ∀ m ∈ k.members, m.2.plain := by
    intro m hm
    have hwritable : Writable 2 m.2 := k.writable_of_mem_members hm
    exact Json.plain_of_writable hwritable
  have htype : Json.select? ["type"] k.members = some [("type", k.type.toJson)] := by
    cases k <;> simp [members, payload, Json.select?]
  have hpayload : Json.select? (fieldNames k.type) k.members = some k.payload := by
    cases k <;> simp [members, payload, Json.select?, fieldNames, type]
  rw [ofMembers?, List.all_eq_true.mpr (by simpa using hplain), htype]
  show some () >>= _ = some k
  simp [Json.Fields.required?, h, hpayload, k.ofFields?_payload]

end BubbleKind

namespace Bubble

theorem writable_toJson (b : Bubble) : Writable (room + 3) b.toJson := by
  refine .record (List.forall_mem_append.mpr ⟨?_, fun _ ↦ b.kind.writable_of_mem_members⟩)
  simp only [List.forall_mem_cons]
  exact ⟨b.uid.writable_toJson, .text _, .int (Json.inRange_toInt b.order), .bool _, nofun⟩

/-- The members that every bubble has. -/
def common (b : Bubble) : List (String × Json) :=
  [("uid", b.uid.toJson), ("label", text b.label), ("order", .int b.order.toInt),
    ("locked", .bool b.locked)]

theorem ofJson?_toJson (b : Bubble) : ofJson? b.toJson = some b := by
  have hcommon : ∀ m ∈ b.common, m.1 ∈ fieldNames := by simp [common, fieldNames]
  have hkind : ∀ m ∈ b.kind.members, m.1 ∉ fieldNames := by
    cases b.kind <;> simp [BubbleKind.members, BubbleKind.payload, fieldNames]
  have hselect : Json.select? fieldNames (b.common ++ b.kind.members) = some b.common :=
    Json.select?_append (by simp [common]) hcommon hkind
  have htype : BubbleKind.typeOfTextOrIndex? b.kind.type.toJson = some b.kind.type :=
    BubbleType.ofName?_name b.kind.type
  show ofJson? (record (b.common ++ b.kind.members)) = some b
  rw [ofJson?, Json.members?_record, Option.bind_eq_bind, Option.bind_some, hselect,
    List.filter_append, List.filter_eq_nil_iff.mpr (by simpa using hcommon),
    List.filter_eq_self.mpr (by simpa using hkind), List.nil_append]
  simp [common, Json.Fields.required?, Json.Fields.optional?, List.lookup_cons, b.uid.ofJson?_toJson,
    Json.bool?, Json.int64?_toInt, b.kind.ofMembers?_members htype]

end Bubble

/-! ## Scenes and projects -/

namespace Scene

theorem writable_toJson (s : Scene) : Writable (room + 5) s.toJson := by
  refine .record ?_
  simp only [List.forall_mem_cons]
  exact ⟨.text _, .list _ Bubble.writable_toJson, .list _ Connection.writable_toJson, nofun⟩

theorem ofJson?_toJson (s : Scene) : ofJson? s.toJson = some s := by
  have hbubbles := Json.list?_map s.bubbles fun b _ ↦ b.ofJson?_toJson
  have hconnections := Json.list?_map s.connections fun c _ ↦ c.ofJson?_toJson
  rw [toJson, ofJson?, Json.fields?_record (by simp) (by simp)]
  simp [Json.Fields.required?, Json.Fields.optional?, List.lookup_cons, hbubbles,
    hconnections]

end Scene

namespace Variable

theorem writable_toJson (v : Variable) : Writable (room + 1) v.toJson := by
  obtain ⟨name, value, owner⟩ := v
  refine .record (List.forall_mem_append.mpr ⟨?_, ?_⟩)
  · simp only [List.forall_mem_cons]
    exact ⟨.text _, .text _, nofun⟩
  · cases owner with
    | none => exact nofun
    | some owner => exact List.forall_mem_singleton.mpr (.text owner)

theorem ofJson?_toJson (v : Variable) : ofJson? v.toJson = some v := by
  obtain ⟨name, value, owner⟩ := v
  cases owner <;>
    · rw [toJson, ofJson?, Json.fields?_record (by simp) (by simp)]
      simp [Json.Fields.required?, Json.Fields.optional?, List.lookup_cons]

end Variable

namespace ProjectFile

theorem writable_toJson (f : ProjectFile) : Writable (room + 7) f.toJson := by
  refine .record ?_
  simp only [List.forall_mem_cons]
  exact ⟨.int (Json.inRange_toNat f.version), .text _, .text _, .list _ Scene.writable_toJson,
    .list _ Variable.writable_toJson, nofun⟩

theorem ofJson?_toJson (f : ProjectFile) : ofJson? f.toJson = some f := by
  have hscenes := Json.list?_map f.scenes fun s _ ↦ s.ofJson?_toJson
  have hvars := Json.list?_map f.vars fun v _ ↦ v.ofJson?_toJson
  rw [toJson, ofJson?, Json.fields?_record (by simp) (by simp)]
  simp [Json.Fields.required?, Json.Fields.optional?, List.lookup_cons, hscenes, hvars,
    Json.uint32?_toNat]

/-- The text of a file decodes to the file. -/
theorem decode_pretty (f : ProjectFile) : Json.decode ofJson? f.toJson.pretty = .ok f := by
  have hwritable : Writable (120 + 7) f.toJson := f.writable_toJson
  rw [Json.decode, Json.read?_pretty hwritable, Option.bind_some, f.ofJson?_toJson]

end ProjectFile

end StoryGraph
