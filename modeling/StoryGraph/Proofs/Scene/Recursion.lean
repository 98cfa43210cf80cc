import StoryGraph.Proofs.Scene.Edit
import StoryGraph.Scene.Order

/-!
# The order walk is a recursion

`Scene.walk` keeps the connections that it has still to take on a stack, with their orders, and puts off
what it writes. Here is the walk as it is meant: `Tour.visit` follows one connection, writes the order
of its target where that stands in the scene, and follows every link of the target before it comes back. The two agree
on every scene, with cycles, with connections that end nowhere or share an id, and with locked bubbles:
what the recursion makes of some connections is what the walk makes of them in front of any stack.
-/

namespace StoryGraph.Scene

/-! ## Ordering by recursion -/

/-- How far ordering by recursion has come: the scene with the orders that have been written, and the
connections that are processed. -/
structure Tour where
  scene : Scene
  done : List ConnectionId
deriving DecidableEq, Repr

namespace Tour

/-- How many connections are still to be processed. -/
def left (t : Tour) : Nat := (t.scene.undone t.done).length

/-- Mark a connection as processed. -/
def mark (t : Tour) (id : ConnectionId) : Tour := { t with done := id :: t.done }

/-- Put a bubble at an order, unless it is locked. Where several have its uid, the first of them is meant. -/
def write (t : Tour) (b : Bubble) (order : Int64) : Tour :=
  if b.locked then t
  else
    let place := t.scene.bubbles.findIdx (·.uid = b.uid)
    { t with scene := { t.scene with bubbles := t.scene.bubbles.modify place ({ · with order }) } }

theorem write_of_locked {b : Bubble} (h : b.locked) (t : Tour) (order : Int64) : t.write b order = t :=
  if_pos h

theorem write_of_not_locked {b : Bubble} (h : b.locked = false) (t : Tour) (order : Int64) :
    t.write b order = { t with scene := t.scene.setOrder b.uid order } := by
  rw [write, if_neg (by simp [h]), setOrder, updateBubble, updateFirst_eq_modify]

theorem left_mark_le (t : Tour) (id : ConnectionId) : (t.mark id).left ≤ t.left :=
  t.scene.length_undone_cons_le id t.done

@[simp] theorem left_write (t : Tour) (b : Bubble) (order : Int64) :
    (t.write b order).left = t.left := by
  unfold write
  split <;> rfl

theorem left_write_mark_le (t : Tour) (id : ConnectionId) (b : Bubble) (order : Int64) :
    ((t.mark id).write b order).left ≤ t.left := by
  rw [left_write]
  exact t.left_mark_le id

theorem left_mark_lt {t : Tour} {id : ConnectionId} {b : Bubble} (hb : t.scene.end? id = some b)
    (hid : id ∉ t.done) : (t.mark id).left < t.left := length_undone_cons_lt hb hid

mutual

/-- Follow a connection that carries an order, unless it is processed, and then every connection that
leaves its target. -/
def follow (t : Tour) (id : ConnectionId) (order : Int64) :
    Except Error { t' : Tour // t'.left ≤ t.left } :=
  if _hid : id ∈ t.done then .ok ⟨t, Nat.le_refl _⟩
  else
    match _hb : t.scene.end? id with
    | none => .ok ⟨t.mark id, t.left_mark_le id⟩
    | some b => do
        let order := if b.locked then b.order else order
        let ⟨t', ht'⟩ ← ((t.mark id).write b order).followAll (t.scene.links b.uid) order
        return ⟨t', Nat.le_trans ht' (t.left_write_mark_le id b order)⟩
termination_by (t.left, 0)
decreasing_by
  exact Prod.Lex.left _ _ (by simpa using left_mark_lt _hb _hid)

/-- Follow connections one after the other, with the order after another one. -/
def followAll (t : Tour) : List Connection → Int64 → Except Error { t' : Tour // t'.left ≤ t.left }
  | [], _ => .ok ⟨t, Nat.le_refl _⟩
  | c :: cs, order => do
      match nextOrder? order with
      | none => throw .overflow
      | some next =>
          let ⟨t₁, h₁⟩ ← t.follow c.id next
          let ⟨t₂, h₂⟩ ← t₁.followAll cs order
          return ⟨t₂, Nat.le_trans h₂ h₁⟩
termination_by cs => (t.left, cs.length + 1)
decreasing_by
  · exact Prod.Lex.right _ (by simp)
  · rcases Nat.lt_or_eq_of_le h₁ with hlt | heq
    · exact Prod.Lex.left _ _ hlt
    · rw [heq]
      exact Prod.Lex.right _ (by simp)

end

/-! The measure is only there for the recursion to end. `visit` and `visitAll` leave it out, and
`visit_eq`, `visitAll_nil` and `visitAll_cons` are how they recur. -/

/-- What following a connection comes to. -/
def visit (t : Tour) (id : ConnectionId) (order : Int64) : Except Error Tour :=
  (t.follow id order).map (·.1)

/-- What following connections comes to, one after the other. -/
def visitAll (t : Tour) (cs : List Connection) (order : Int64) : Except Error Tour :=
  (t.followAll cs order).map (·.1)

theorem left_le_of_visit {t t' : Tour} {id : ConnectionId} {order : Int64}
    (h : t.visit id order = .ok t') : t'.left ≤ t.left := by
  unfold visit at h
  obtain ⟨r, -, rfl⟩ := map_eq_ok.mp h
  exact r.2

theorem visit_eq (t : Tour) (id : ConnectionId) (order : Int64) :
    t.visit id order =
      if id ∈ t.done then .ok t
      else
        match t.scene.end? id with
        | none => .ok (t.mark id)
        | some b =>
            let order := if b.locked then b.order else order
            ((t.mark id).write b order).visitAll (t.scene.links b.uid) order := by
  rw [visit, follow]
  split
  · rfl
  · split
    · rename_i hb
      simp only [hb]
      rfl
    · rename_i b hb
      simp only [hb, visitAll]
      cases Tour.followAll _ _ _ <;> rfl

theorem visitAll_nil (t : Tour) (order : Int64) : t.visitAll [] order = .ok t := by
  rw [visitAll, followAll]
  rfl

theorem visitAll_cons (t : Tour) (c : Connection) (cs : List Connection) (order : Int64) :
    t.visitAll (c :: cs) order =
      match nextOrder? order with
      | none => .error .overflow
      | some next => t.visit c.id next >>= fun t₁ ↦ t₁.visitAll cs order := by
  rw [visitAll, followAll]
  cases nextOrder? order with
  | none => rfl
  | some next =>
      simp only [visit]
      cases t.follow c.id next with
      | error e => rfl
      | ok t₁ =>
          obtain ⟨t₁, h₁⟩ := t₁
          simp only [visitAll, Except.map, bind, Except.bind]
          cases t₁.followAll cs order <;> rfl

end Tour

/-- Order by recursion from a connection that carries an order. The count is of the connections
processed. -/
def orderByRecursion (s : Scene) (id : ConnectionId) (order : Int64) : Except Error (Nat × Scene) := do
  let t ← Tour.visit ⟨s, []⟩ id order
  return (t.done.length, t.scene)

/-! ## Orders that are written -/

variable {s : Scene}

theorem bubble?_setOrder (s : Scene) (u v : Uid) (order : Int64) :
    (s.setOrder u order).bubble? v =
      (s.bubble? v).map fun b ↦ if u = v then { b with order } else b := by
  unfold bubble? setOrder updateBubble
  by_cases huv : u = v
  · subst huv
    simp only [if_true]
    exact find?_updateFirst (p := fun b ↦ decide (b.uid = u)) (f := fun b ↦ { b with order })
      (fun _ hb ↦ hb) s.bubbles
  · simp only [if_neg huv, Option.map_id']
    apply find?_updateFirst_of_disjoint
    intro b hb
    have hb : b.uid = u := by simpa using hb
    simp [hb, huv]

/-- `Written s given`: orders are given to bubbles of a scene that are not locked. -/
def Written (s : Scene) (given : List (Uid × Int64)) : Prop :=
  ∀ entry ∈ given, ∀ b, s.bubble? entry.1 = some b → b.locked = false

/-- Where orders have been written, a bubble has another order unless it is locked, and is the same
otherwise. -/
theorem Written.bubble?_withOrders {given : List (Uid × Int64)} (h : s.Written given) (u : Uid) :
    ∃ f : Bubble → Int64, (∀ b, s.bubble? u = some b → b.locked → f b = b.order) ∧
      (s.withOrders given).bubble? u = (s.bubble? u).map fun b ↦ { b with order := f b } := by
  induction given with
  | nil => exact ⟨Bubble.order, fun _ _ _ ↦ rfl, by simp [withOrders]⟩
  | cons entry given ih =>
      obtain ⟨hentry, hgiven⟩ := List.forall_mem_cons.mp h
      obtain ⟨f, hf, hbubble⟩ := ih hgiven
      refine ⟨fun b ↦ if entry.1 = u then entry.2 else f b, ?_, ?_⟩
      · intro b hb hlocked
        by_cases hu : entry.1 = u
        · simp [hentry b (hu ▸ hb)] at hlocked
        · simpa [hu] using hf b hb hlocked
      · show ((s.withOrders given).setOrder entry.1 entry.2).bubble? u = _
        rw [bubble?_setOrder, hbubble, Option.map_map]
        congr 1
        funext b
        by_cases hu : entry.1 = u <;> simp [hu]

theorem withOrders_connections (s : Scene) (given : List (Uid × Int64)) :
    (s.withOrders given).connections = s.connections := (s.of_withOrders given).2.1

theorem Written.links_withOrders {given : List (Uid × Int64)} (h : s.Written given) (u : Uid) :
    (s.withOrders given).links u = s.links u := by
  obtain ⟨f, -, hbubble⟩ := h.bubble?_withOrders u
  have hslots : (s.withOrders given).slots u = s.slots u := by
    unfold slots
    rw [hbubble]
    cases s.bubble? u <;> rfl
  have hlink : (s.withOrders given).link? = s.link? := by
    funext slot
    rw [link?, s.withOrders_connections given, link?]
  rw [links, links, hslots, hlink]

theorem Written.end?_withOrders {given : List (Uid × Int64)} (h : s.Written given) (id : ConnectionId) :
    ∃ f : Bubble → Int64, (∀ b, s.end? id = some b → b.locked → f b = b.order) ∧
      (s.withOrders given).end? id = (s.end? id).map fun b ↦ { b with order := f b } := by
  unfold end? connection?
  rw [s.withOrders_connections given]
  cases hc : s.connections.find? (·.id = id) with
  | none => exact ⟨Bubble.order, by simp, rfl⟩
  | some c => exact h.bubble?_withOrders c.target

/-! ## The walk along a stack -/

theorem walk_of_mem {w : Walk} {id : ConnectionId} {order : Int64}
    {pending : List (ConnectionId × Int64)} (hid : id ∈ w.done) :
    s.walk w ((id, order) :: pending) = s.walk w pending := by
  rw [walk, dif_pos hid]

theorem walk_of_end?_eq_none {w : Walk} {id : ConnectionId} {order : Int64}
    {pending : List (ConnectionId × Int64)} (hid : id ∉ w.done) (hb : s.end? id = none) :
    s.walk w ((id, order) :: pending) = s.walk ⟨id :: w.done, w.given⟩ pending := by
  rw [walk, dif_neg hid]
  split <;> simp_all

theorem walk_of_end?_eq_some {w : Walk} {id : ConnectionId} {order order' : Int64} {b : Bubble}
    (hid : id ∉ w.done) (hb : s.end? id = some b)
    (horder : order' = if b.locked then b.order else order) (pending : List (ConnectionId × Int64)) :
    s.walk w ((id, order) :: pending) =
      match s.onward? b order' with
      | none => .error .overflow
      | some onward =>
          s.walk ⟨id :: w.done, if b.locked then w.given else (b.uid, order') :: w.given⟩
            (onward ++ pending) := by
  rw [walk, dif_neg hid]
  split
  · simp_all
  · rename_i b' hb'
    obtain rfl := Option.some.inj (hb.symm.trans hb')
    subst horder
    rfl

/-- `Shows s w t`: a recursion over a scene has come as far as a walk. -/
structure Tour.Shows (s : Scene) (w : Walk) (t : Tour) : Prop where
  done_eq : t.done = w.done
  scene_eq : t.scene = s.withOrders w.given
  written : s.Written w.given

variable {w : Walk} {t : Tour}

namespace Tour.Shows

theorem mark (h : t.Shows s w) (id : ConnectionId) : (t.mark id).Shows s ⟨id :: w.done, w.given⟩ :=
  ⟨congrArg (id :: ·) h.done_eq, h.scene_eq, h.written⟩

theorem links_eq (h : t.Shows s w) (u : Uid) : t.scene.links u = s.links u := by
  rw [h.scene_eq, h.written.links_withOrders]

theorem end?_eq_none (h : t.Shows s w) {id : ConnectionId} (hend : t.scene.end? id = none) :
    s.end? id = none := by
  obtain ⟨f, -, heq⟩ := h.written.end?_withOrders id
  rw [← h.scene_eq, hend] at heq
  exact Option.map_eq_none_iff.mp heq.symm

/-- A bubble that the recursion comes to differs from the one of the scene in its order at most, and not
at all if it is locked. -/
theorem of_end? (h : t.Shows s w) {id : ConnectionId} {b' : Bubble} (hend : t.scene.end? id = some b') :
    ∃ b, s.end? id = some b ∧ b' = { b with order := b'.order } ∧
      (b.locked → b'.order = b.order) := by
  obtain ⟨f, hf, heq⟩ := h.written.end?_withOrders id
  rw [← h.scene_eq, hend] at heq
  obtain ⟨b, hb, rfl⟩ := Option.map_eq_some_iff.mp heq.symm
  exact ⟨b, hb, rfl, hf b hb⟩

theorem write (h : t.Shows s w) {u : Uid} {b : Bubble} (hb : s.bubble? u = some b) (b' : Bubble)
    (hb' : b' = { b with order := b'.order }) (order : Int64) :
    (t.write b' order).Shows s
      ⟨w.done, if b.locked then w.given else (b.uid, order) :: w.given⟩ := by
  obtain rfl := uid_of_bubble? hb
  have hlocked : b'.locked = b.locked := by rw [hb']
  have huid : b'.uid = b.uid := by rw [hb']
  cases hl : b.locked with
  | true =>
      rw [write_of_locked (hlocked.trans hl)]
      exact ⟨h.done_eq, h.scene_eq, h.written⟩
  | false =>
      rw [write_of_not_locked (hlocked.trans hl)]
      refine ⟨h.done_eq, ?_, ?_⟩
      · show t.scene.setOrder b'.uid order = (s.withOrders w.given).setOrder b.uid order
        rw [h.scene_eq, huid]
      · refine List.forall_mem_cons.mpr ⟨?_, h.written⟩
        intro b₂ hb₂
        obtain rfl := Option.some.inj (hb.symm.trans hb₂)
        exact hl

end Tour.Shows

/-- `Comes s w front result`: what a walk makes of connections in front, before those that are pending,
is what a recursion comes to. -/
def Comes (s : Scene) (w : Walk) (front : List (ConnectionId × Int64)) : Except Error Tour → Prop
  | .error e => ∀ pending, s.walk w (front ++ pending) = .error e
  | .ok t => ∃ w', t.Shows s w' ∧ ∀ pending, s.walk w (front ++ pending) = s.walk w' pending

theorem Comes.of_walk_eq {w w' : Walk} {front front' : List (ConnectionId × Int64)}
    {r : Except Error Tour} (h : s.Comes w' front' r)
    (hwalk : ∀ pending, s.walk w (front ++ pending) = s.walk w' (front' ++ pending)) :
    s.Comes w front r := by
  cases r with
  | error e => exact fun pending ↦ (hwalk pending).trans (h pending)
  | ok t =>
      obtain ⟨w'', hshows, hfront⟩ := h
      exact ⟨w'', hshows, fun pending ↦ (hwalk pending).trans (hfront pending)⟩

/-- Connections further back are walked from where those in front come to. -/
theorem Comes.bind {front front' : List (ConnectionId × Int64)} {r : Except Error Tour}
    {f : Tour → Except Error Tour} (h : s.Comes w front r)
    (hf : ∀ t w', r = .ok t → t.Shows s w' → s.Comes w' front' (f t)) :
    s.Comes w (front ++ front') (r >>= f) := by
  cases r with
  | error e =>
      intro pending
      rw [List.append_assoc]
      exact h _
  | ok t =>
      obtain ⟨w', hshows, hwalk⟩ := h
      refine (hf t w' rfl hshows).of_walk_eq fun pending ↦ ?_
      rw [List.append_assoc]
      exact hwalk _

/-- The walk looks for the next order when it takes the links of a bubble, the recursion at the first
link. -/
theorem Comes.of_onward {w w' : Walk} {front : List (ConnectionId × Int64)} {b : Bubble} {order : Int64}
    {t : Tour} (hshows : t.Shows s w')
    (hwalk : ∀ pending, s.walk w (front ++ pending) =
      match s.onward? b order with
      | none => .error .overflow
      | some onward => s.walk w' (onward ++ pending))
    (h : ∀ next, nextOrder? order = some next →
      s.Comes w' ((s.links b.uid).map fun c ↦ (c.id, next)) (t.visitAll (s.links b.uid) order)) :
    s.Comes w front (t.visitAll (s.links b.uid) order) := by
  cases hlinks : s.links b.uid with
  | nil =>
      simp only [onward?, hlinks] at hwalk
      rw [Tour.visitAll_nil]
      exact ⟨w', hshows, hwalk⟩
  | cons c cs =>
      simp only [onward?, hlinks] at hwalk h
      cases hnext : nextOrder? order with
      | none =>
          simp only [hnext] at hwalk
          rw [Tour.visitAll_cons, hnext]
          exact hwalk
      | some next =>
          simp only [hnext] at hwalk
          exact (h next hnext).of_walk_eq hwalk

/-- One link, and any links with one order, by induction on the recursion itself. The walk and the
stack below are left open, since a link is followed with others pending. -/
theorem comes_follow (s : Scene) :
    (∀ (t : Tour) id order w, t.Shows s w → s.Comes w [(id, order)] (t.visit id order)) ∧
      ∀ (t : Tour) cs order next w, nextOrder? order = some next → t.Shows s w →
        s.Comes w (cs.map fun c ↦ (c.id, next)) (t.visitAll cs order) := by
  apply Tour.follow.mutual_induct
    (fun t id order ↦ ∀ w, t.Shows s w → s.Comes w [(id, order)] (t.visit id order))
    (fun t cs order ↦ ∀ next w, nextOrder? order = some next → t.Shows s w →
        s.Comes w (cs.map fun c ↦ (c.id, next)) (t.visitAll cs order))
  case case1 =>
    intro t id order hid w h
    rw [Tour.visit_eq, if_pos hid]
    exact ⟨w, h, fun pending ↦ walk_of_mem (h.done_eq ▸ hid)⟩
  case case2 =>
    intro t id order hid hb w h
    have hid' : id ∉ w.done := h.done_eq ▸ hid
    rw [Tour.visit_eq, if_neg hid, hb]
    exact ⟨_, h.mark id, fun pending ↦ walk_of_end?_eq_none hid' (h.end?_eq_none hb)⟩
  case case3 =>
    intro t id order hid b' hb' order' ih w h
    have hid' : id ∉ w.done := h.done_eq ▸ hid
    obtain ⟨b, hb, heq, hlocked⟩ := h.of_end? hb'
    have hbubble : s.bubble? b.uid = some b := by
      obtain ⟨c, -, hc⟩ := Option.bind_eq_some_iff.mp hb
      rwa [uid_of_bubble? hc]
    have horder : order' = if b.locked then b.order else order := by
      have hsame : b'.locked = b.locked := by rw [heq]
      cases hl : b.locked <;> simp [order', hsame, hl, hlocked]
    have hshows := (h.mark id).write hbubble b' heq order'
    have hlinks : t.scene.links b'.uid = s.links b.uid := by rw [h.links_eq, heq]
    rw [Tour.visit_eq, if_neg hid, hb']
    show s.Comes w _ (((t.mark id).write _ order').visitAll (t.scene.links b'.uid) order')
    rw [hlinks] at ih ⊢
    exact .of_onward hshows (walk_of_end?_eq_some hid' hb horder) fun next hnext ↦
      ih next _ hnext hshows
  case case4 =>
    intro t order next w _ h
    rw [Tour.visitAll_nil]
    exact ⟨w, h, fun pending ↦ rfl⟩
  case case5 =>
    intro t c cs order hnone next w hnext
    simp [hnone] at hnext
  case case6 =>
    intro t c cs order next hnext ih₁ ih₂ next' w hnext' h
    obtain rfl := Option.some.inj (hnext.symm.trans hnext')
    rw [Tour.visitAll_cons, hnext]
    exact (ih₁ w h).bind fun t₁ w₁ hvisit hshows ↦
      ih₂ t₁ (Tour.left_le_of_visit hvisit) next w₁ hnext hshows

/-- The walk along a stack is the walk by recursion, on every scene: it puts the same bubbles at the same
orders, counts the same connections, and runs out of orders where the recursion does. -/
theorem orderFrom_eq_orderByRecursion (s : Scene) (id : ConnectionId) (order : Int64) :
    s.orderFrom id order = s.orderByRecursion id order := by
  have hshows : Tour.Shows s ⟨[], []⟩ ⟨s, []⟩ := ⟨rfl, rfl, fun _ h ↦ nomatch h⟩
  have hcomes := (comes_follow s).1 ⟨s, []⟩ id order ⟨[], []⟩ hshows
  unfold orderFrom orderByRecursion
  cases hvisit : Tour.visit ⟨s, []⟩ id order with
  | error e =>
      rw [hvisit] at hcomes
      rw [show s.walk ⟨[], []⟩ [(id, order)] = .error e from hcomes []]
      rfl
  | ok t =>
      rw [hvisit] at hcomes
      obtain ⟨w, hw, hwalk⟩ := hcomes
      have hdone : s.walk ⟨[], []⟩ [(id, order)] = .ok w := (hwalk []).trans (by rw [walk])
      rw [hdone]
      show Except.ok (w.done.length, s.withOrders w.given) = Except.ok (t.done.length, t.scene)
      rw [hw.done_eq, hw.scene_eq]

end StoryGraph.Scene
