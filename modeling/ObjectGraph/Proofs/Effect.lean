import ObjectGraph.Proofs.Shrinking
import ObjectGraph.Proofs.World

/-!
# What an operation can do

Sixteen operations move a world in nine ways. `World.Effect` lists them, each with all that is known
when it happens, and `World.effect` says that the list is complete. An invariant is carried through
every run by one case for each way, and no later proof looks into an operation again.

A node is admitted only under an id that is free at that moment: registering it finds the id free, and
replacing it has just emptied the place. A relationship entity is admitted under an id that is free or
whose former holder gives way; the records that name the id stay either way.
-/

set_option autoImplicit false

namespace ObjectGraph

/-! ## What admission leaves alone -/

namespace Session

section Admission

variable (s : Session) (heap : Heap) (h : Handle) (id : NativeId) (key : Option Key)

@[simp] theorem nodes_indexNode (name : TypeName) (k : Key) :
    (s.indexNode id name k h).nodes = s.nodes := by
  unfold indexNode
  dsimp only
  split <;> rfl

@[simp] theorem nodes_admitNode : (s.admitNode heap h id key).nodes = s.nodes.insert id h := by
  unfold admitNode
  cases key with
  | none => rfl
  | some k => exact nodes_indexNode _ h id _ k

@[simp] theorem relationships_admitNode :
    (s.admitNode heap h id key).relationships = s.relationships := by
  unfold admitNode indexNode
  dsimp only
  split <;> (try split) <;> rfl

@[simp] theorem records_admitNode : (s.admitNode heap h id key).records = s.records := by
  unfold admitNode indexNode
  dsimp only
  split <;> (try split) <;> rfl

@[simp] theorem tracker_admitNode :
    (s.admitNode heap h id key).tracker = s.tracker.remember heap (heap.get h) := by
  unfold admitNode indexNode
  dsimp only
  split <;> (try split) <;> rfl

@[simp] theorem provider_admitNode : (s.admitNode heap h id key).provider = s.provider := by
  unfold admitNode indexNode
  dsimp only
  split <;> (try split) <;> rfl

end Admission

theorem dropNodeOf_of_id (s : Session) {e : Entity} {id : NativeId} (hid : e.id = some id) :
    s.dropNodeOf e = s.dropNode id := by
  rw [dropNodeOf, hid]

/-- Registering a node lets it be if it has no id or its id is taken. Else it is refused if its key
cannot be told, and admitted if it can. -/
theorem registerNode_outcome (s : Session) (heap : Heap) (h : Handle) :
    s.registerNode heap h = ⟨s, .ok h⟩ ∨
      ∃ id, (heap.get h).id = some id ∧ s.nodes.get? id = none ∧
        ((∃ err, s.primaryKey (heap.get h) = .error err ∧
            s.registerNode heap h = ⟨s, .error err⟩) ∨
          ∃ key, s.primaryKey (heap.get h) = .ok key ∧
            s.registerNode heap h = ⟨s.admitNode heap h id key, .ok h⟩) := by
  unfold registerNode
  split
  next => exact .inl rfl
  next id hid =>
    split
    next => exact .inl rfl
    next hout =>
      have hfree : s.nodes.get? id = none :=
        Table.contains_eq_false_iff.mp (Bool.not_eq_true _ ▸ hout)
      refine .inr ⟨id, hid, hfree, ?_⟩
      split
      next err hkey => exact .inl ⟨err, hkey, rfl⟩
      next key hkey => exact .inr ⟨key, hkey, rfl⟩

/-- Registering a node admits it under a free id, or does nothing. -/
theorem registerNode_cases (s : Session) (heap : Heap) (h : Handle) :
    (s.registerNode heap h).session = s ∨
      ∃ id key, (heap.get h).id = some id ∧ s.nodes.get? id = none ∧
        s.primaryKey (heap.get h) = .ok key ∧
        (s.registerNode heap h).session = s.admitNode heap h id key := by
  rcases registerNode_outcome s heap h with ho | ⟨id, hid, hfree, ⟨err, -, ho⟩ | ⟨key, hkey, ho⟩⟩
  · exact .inl (by rw [ho])
  · exact .inl (by rw [ho])
  · exact .inr ⟨id, key, hid, hfree, hkey, by rw [ho]⟩

end Session

namespace World

open Session

/-! ## The effects -/

/-- All that an operation can leave behind. -/
inductive Effect (w : World) : Operation → World → Prop
  | created (e : Entity) : Effect w (.create e) ⟨(w.heap.alloc e).1, w.session⟩
  | edited (h : Handle) (change : Entity → Entity) :
      Effect w (.edit h change) ⟨w.heap.modify h change, w.session⟩
  /-- The session has lost something, or nothing has happened. -/
  | shrunk {op : Operation} {t : Session} (hs : w.session.Shrinks t) : Effect w op ⟨w.heap, t⟩
  /-- An entity has been purged without an error, and has given up its id. -/
  | reset (h : Handle) {t : Session} (hp : w.session.purge w.heap h = ⟨t, .ok ()⟩) :
      Effect w (.reset h) ⟨w.heap.modify h (Entity.withId · none), t⟩
  /-- A node stands under its id, which nothing stood under before. -/
  | admittedNode {op : Operation} {h : Handle} {id : NativeId} {key : Option Key} {t : Session}
      (hop : op = .registerNode h ∧ t = w.session ∨
        op = .replaceNode h ∧ t = w.session.dropNode id)
      (hid : (w.heap.get h).id = some id) (hfree : t.nodes.get? id = none)
      (hkey : t.primaryKey (w.heap.get h) = .ok key) :
      Effect w op ⟨w.heap, t.admitNode w.heap h id key⟩
  /-- A relationship entity stands under an id, in an empty place or in the place of another. -/
  | admittedRelationship {op : Operation} {h : Handle} {id : NativeId} {t : Session}
      (hop : op = .registerRelationship h id ∧ t = w.session ∧ t.relationships.get? id = none ∨
        op = .replaceRelationship h id ∧
          t = { w.session with relationships := w.session.relationships.erase id }) :
      Effect w op ⟨w.heap, t.admitRelationship w.heap h id⟩
  | recorded (r : Record) : Effect w (.addRecord r) ⟨w.heap, (w.session.addRecord r).1⟩
  | cleared : Effect w .clear ⟨w.heap, w.session.clear⟩
  | tracked (tracker : Tracker) : Effect w (.track tracker) ⟨w.heap, w.session.withTracker tracker⟩

/-- Nothing has happened. -/
theorem Effect.still {w : World} {op : Operation} : w.Effect op w := .shrunk (.refl w.session)

theorem effect_registerNode (w : World) (h : Handle) :
    w.Effect (.registerNode h) (w.after (.registerNode h)) := by
  rw [after]
  rcases registerNode_cases w.session w.heap h with hs | ⟨id, key, hid, hfree, hkey, hs⟩
  · rw [hs]
    exact .still
  · rw [hs]
    exact .admittedNode (.inl ⟨rfl, rfl⟩) hid hfree hkey

theorem effect_replaceNode (w : World) (h : Handle) :
    w.Effect (.replaceNode h) (w.after (.replaceNode h)) := by
  rw [after, replaceNode]
  rcases registerNode_cases (w.session.dropNodeOf (w.heap.get h)) w.heap h with
    hs | ⟨id, key, hid, hfree, hkey, hs⟩
  · rw [hs]
    exact .shrunk (dropNodeOf_shrinks w.session _)
  · rw [hs]
    exact .admittedNode (.inr ⟨rfl, dropNodeOf_of_id w.session hid⟩) hid hfree hkey

theorem effect_registerRelationship (w : World) (h : Handle) (id : NativeId) :
    w.Effect (.registerRelationship h id) (w.after (.registerRelationship h id)) := by
  simp only [after, registerRelationship]
  split
  next => exact .still
  next hfree => exact .admittedRelationship (.inl ⟨rfl, rfl, hfree⟩)

theorem effect_replaceRelationship (w : World) (h : Handle) (id : NativeId) :
    w.Effect (.replaceRelationship h id) (w.after (.replaceRelationship h id)) := by
  simp only [after, replaceRelationship, registerRelationship]
  split
  next tracked hin => simp at hin
  next => exact .admittedRelationship (.inr ⟨rfl, rfl⟩)

theorem effect_reset (w : World) (h : Handle) : w.Effect (.reset h) (w.after (.reset h)) := by
  have hs := purge_shrinks w.session w.heap h
  simp only [after, Session.reset]
  cases hp : w.session.purge w.heap h with
  | mk t answer =>
    rw [hp] at hs
    cases answer with
    | ok _ => exact .reset h hp
    | error _ => exact .shrunk hs

/-- The list of effects is complete. -/
theorem effect (w : World) (op : Operation) : w.Effect op (w.after op) := by
  cases op with
  | create e => exact .created e
  | edit h change => exact .edited h change
  | registerNode h => exact w.effect_registerNode h
  | replaceNode h => exact w.effect_replaceNode h
  | removeNode h withDependents => exact .shrunk (removeNode_shrinks _ _ h withDependents)
  | registerRelationship h id => exact w.effect_registerRelationship h id
  | replaceRelationship h id => exact w.effect_replaceRelationship h id
  | addRecord r => exact .recorded r
  | removeRecord r => exact .shrunk (.of_loses (.record r))
  | removeEntity h => exact .shrunk (purge_shrinks _ _ h)
  | removeType name => exact .shrunk (removeType_shrinks _ _ name)
  | reset h => exact w.effect_reset h
  | detachNode key => exact .shrunk (purgeFound_shrinks _ _ _)
  | detachRelationship id => exact .shrunk (purgeFound_shrinks _ _ _)
  | clear => exact .cleared
  | track tracker => exact .tracked tracker

/-! ## What every effect leaves alone -/

theorem Effect.provider {w v : World} {op : Operation} (he : w.Effect op v) :
    v.session.provider = w.session.provider := by
  cases he with
  | created | edited | recorded | cleared | tracked => rfl
  | shrunk hs => exact hs.provider
  | reset h hp => exact (shrinks_of_purge hp).provider
  | admittedNode hop =>
    rcases hop with ⟨-, rfl⟩ | ⟨-, rfl⟩ <;> simp
  | admittedRelationship hop =>
    rcases hop with ⟨-, rfl, -⟩ | ⟨-, rfl⟩ <;> rfl

/-- The operation is there to have the entity tracked under the id. -/
inductive Offers (w : World) : Register → NativeId → Handle → Operation → Prop
  | registerNode {h : Handle} {id : NativeId} (hid : (w.heap.get h).id = some id) :
      Offers w .node id h (.registerNode h)
  | replaceNode {h : Handle} {id : NativeId} (hid : (w.heap.get h).id = some id) :
      Offers w .node id h (.replaceNode h)
  | registerRelationship (h : Handle) (id : NativeId) :
      Offers w .relationship id h (.registerRelationship h id)
  | replaceRelationship (h : Handle) (id : NativeId) :
      Offers w .relationship id h (.replaceRelationship h id)

/-- What is tracked afterwards was tracked before in the same place, or has been offered. -/
theorem Effect.get?_register {w v : World} {op : Operation} (he : w.Effect op v) {reg : Register}
    {i : NativeId} {k : Handle} (hk : (v.session.register reg).get? i = some k) :
    (w.session.register reg).get? i = some k ∨ w.Offers reg i k op := by
  cases he with
  | created | edited | recorded | tracked => exact .inl (by cases reg <;> exact hk)
  | shrunk hs => exact .inl (hs.get?_register hk)
  | reset h hp => exact .inl ((shrinks_of_purge hp).get?_register hk)
  | @admittedNode _ h id key t hop hid =>
    cases reg with
    | node =>
      have hk : (t.admitNode w.heap h id key).nodes.get? i = some k := hk
      rw [nodes_admitNode, Table.get?_insert] at hk
      split at hk
      next hi =>
        obtain rfl := Option.some.inj hk
        rcases hop with ⟨rfl, -⟩ | ⟨rfl, -⟩
        · exact .inr (.registerNode (hi ▸ hid))
        · exact .inr (.replaceNode (hi ▸ hid))
      next hi =>
        rcases hop with ⟨-, rfl⟩ | ⟨-, rfl⟩
        · exact .inl hk
        · rw [nodes_dropNode, Table.get?_erase, if_neg hi] at hk
          exact .inl hk
    | relationship =>
      have hk : (t.admitNode w.heap h id key).relationships.get? i = some k := hk
      rw [relationships_admitNode] at hk
      rcases hop with ⟨-, rfl⟩ | ⟨-, rfl⟩
      · exact .inl hk
      · rw [relationships_dropNode] at hk
        exact .inl hk
  | @admittedRelationship _ h id t hop =>
    cases reg with
    | node => rcases hop with ⟨-, rfl, -⟩ | ⟨-, rfl⟩ <;> exact .inl hk
    | relationship =>
      have hk : (t.relationships.insert id h).get? i = some k := hk
      rw [Table.get?_insert] at hk
      split at hk
      next hi =>
        obtain rfl := Option.some.inj hk
        rcases hop with ⟨rfl, -⟩ | ⟨rfl, -⟩
        · exact .inr (hi ▸ .registerRelationship h i)
        · exact .inr (hi ▸ .replaceRelationship h i)
      next hi =>
        rcases hop with ⟨-, rfl, -⟩ | ⟨-, rfl⟩
        · exact .inl hk
        · have hk : (w.session.relationships.erase id).get? i = some k := hk
          rw [Table.get?_erase, if_neg hi] at hk
          exact .inl hk
  | cleared => cases reg <;> cases hk

/-- No operation but adding it puts a record into the set. -/
theorem Effect.mem_records {w v : World} {op : Operation} (he : w.Effect op v) {q : Record}
    (hq : q ∈ v.session.records) :
    q ∈ w.session.records ∨ ∃ p, op = .addRecord p ∧ q = w.session.settle p := by
  cases he with
  | created | edited | tracked => exact .inl hq
  | shrunk hs => exact .inl (hs.mem_records hq)
  | reset h hp => exact .inl ((shrinks_of_purge hp).mem_records hq)
  | admittedNode hop =>
    rw [records_admitNode] at hq
    rcases hop with ⟨-, rfl⟩ | ⟨-, rfl⟩
    · exact .inl hq
    · exact .inl (records_dropNode w.session _ ▸ hq)
  | admittedRelationship hop =>
    rcases hop with ⟨-, rfl, -⟩ | ⟨-, rfl⟩ <;> exact .inl hq
  | recorded p =>
    rcases RecordSet.mem_insert.mp hq with rfl | hold
    · exact .inr ⟨p, rfl, rfl⟩
    · exact .inl hold
  | cleared => exact absurd hq (RecordSet.not_mem_empty q)

end World

end ObjectGraph
