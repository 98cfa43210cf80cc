import StoryGraph.Scene.Basic

/-!
# Ordering a scene

A walk from the start gives each bubble that it reaches an order. It goes over connections, each at
most once, in the order in which a recursive walk would take them: a connection puts its target at the
order that it carries, and the links of the target carry the order after that. A locked bubble keeps
its own order, and the walk goes on from it.
-/

namespace StoryGraph.Scene

/-- The next order, unless there is none. -/
def nextOrder? (order : Int64) : Option Int64 :=
  if order = Int64.maxValue then none else some (order + 1)

/-- The bubble at which the connection of an id ends. -/
def end? (s : Scene) (id : ConnectionId) : Option Bubble :=
  (s.connection? id).bind fun c ↦ s.bubble? c.target

/-- The connections that the walk takes from a bubble, with the order that they carry. A bubble without
links needs no order after its own. -/
def onward? (s : Scene) (b : Bubble) (order : Int64) : Option (List (ConnectionId × Int64)) :=
  match s.links b.uid with
  | [] => some []
  | links => (nextOrder? order).map fun next ↦ links.map fun c ↦ (c.id, next)

/-- The connections whose ids are not done. -/
def undone (s : Scene) (done : List ConnectionId) : List Connection :=
  s.connections.filter (·.id ∉ done)

theorem undone_cons (s : Scene) (id : ConnectionId) (done : List ConnectionId) :
    s.undone (id :: done) = (s.undone done).filter (·.id ≠ id) := by
  simp only [undone, List.filter_filter]
  congr 1
  funext c
  simp

theorem length_undone_cons_le (s : Scene) (id : ConnectionId) (done : List ConnectionId) :
    (s.undone (id :: done)).length ≤ (s.undone done).length := by
  rw [undone_cons]
  exact List.length_filter_le _ _

theorem length_undone_cons_lt {s : Scene} {id : ConnectionId} {done : List ConnectionId}
    {b : Bubble} (hb : s.end? id = some b) (hid : id ∉ done) :
    (s.undone (id :: done)).length < (s.undone done).length := by
  obtain ⟨c, hc, -⟩ := Option.bind_eq_some_iff.mp hb
  have heq : c.id = id := by simpa using List.find?_some hc
  rw [undone_cons]
  refine List.length_filter_lt_length_iff_exists.mpr ⟨c, ?_, by simp [heq]⟩
  simp [undone, List.mem_of_find?_eq_some hc, heq, hid]

/-- What a walk did: the connections it took, the last one first, and the orders it gave, the last one
first. -/
structure Walk where
  done : List ConnectionId
  given : List (Uid × Int64)
deriving Repr

/-- Take the connections that are pending, and every connection found on the way. -/
def walk (s : Scene) (w : Walk) : List (ConnectionId × Int64) → Except Error Walk
  | [] => .ok w
  | (id, order) :: pending =>
      if _hid : id ∈ w.done then s.walk w pending
      else
        match _hb : s.end? id with
        | none => s.walk ⟨id :: w.done, w.given⟩ pending
        | some b =>
            let order := if b.locked then b.order else order
            let given := if b.locked then w.given else (b.uid, order) :: w.given
            match s.onward? b order with
            | none => .error .overflow
            | some onward => s.walk ⟨id :: w.done, given⟩ (onward ++ pending)
termination_by pending => ((s.undone w.done).length, pending.length)
decreasing_by
  · exact Prod.Lex.right _ (by simp)
  · rcases Nat.lt_or_eq_of_le (length_undone_cons_le s id w.done) with hlt | heq
    · exact Prod.Lex.left _ _ hlt
    · simp only [heq]
      exact Prod.Lex.right _ (by simp)
  · exact Prod.Lex.left _ _ (length_undone_cons_lt _hb _hid)

/-- Give a bubble an order. -/
def setOrder (s : Scene) (uid : Uid) (order : Int64) : Scene :=
  s.updateBubble uid fun b ↦ { b with order }

/-- The scene with the orders that a walk gave. -/
def withOrders (s : Scene) (given : List (Uid × Int64)) : Scene :=
  given.foldr (fun (uid, order) s ↦ s.setOrder uid order) s

/-- Walk from a connection that carries an order. The count is of the connections taken. -/
def orderFrom (s : Scene) (id : ConnectionId) (order : Int64) : Except Error (Nat × Scene) := do
  let w ← s.walk ⟨[], []⟩ [(id, order)]
  return (w.done.length, s.withOrders w.given)

/-- The scene with its first start at the front, unless that start is locked. -/
def pinStart (s : Scene) : Scene :=
  { s with
    bubbles := updateFirst (·.isStart) (fun b ↦ if b.locked then b else { b with order := 0 })
      s.bubbles }

/-- Order a scene from its start. The count is of the connections taken. -/
def computeOrder (s : Scene) : Except Error (Nat × Scene) :=
  match s.start? with
  | none => .error (.missingStart s.name)
  | some start =>
      match (s.pinStart.links start.uid).head? with
      | none => .ok (0, s.pinStart)
      | some first => s.pinStart.orderFrom first.id 0

end StoryGraph.Scene
