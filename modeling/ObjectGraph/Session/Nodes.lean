import ObjectGraph.Session.Endpoints
import ObjectGraph.Session.Relationships

/-!
# Node entities

A node is tracked under its own id, and an entity without an id is not tracked at all. If its type has
a primary index and the property holds a key, the node gets an entry in the index too, unless a node
of the same type has one under that key. The entry is found again through `indexedKeys`, since the
property may have changed by the time the node is removed.
-/

set_option autoImplicit false

namespace ObjectGraph.Session

open Schema

/-! ## Looking up -/

/-- The first node that is indexed under a key. -/
def firstIndexed (s : Session) (key : Key) : Option Handle :=
  (s.primaryIndex.get? key).bind fun byType => byType.values.head?

/-- The node with an id, if the key is a whole number and such a node is tracked; else the first node
that is indexed under the key. -/
def lookupNode (s : Session) (key : Key) : Option Handle :=
  (key.nativeId?.bind s.nodes.get?).or (s.firstIndexed key)

/-- The first of some indexed nodes whose type may be used as the target. -/
def firstAssignable (s : Session) (target : TypeName) :
    List (TypeName × Handle) → Except Error (Option Handle)
  | [] => .ok none
  | (name, h) :: rest =>
    match s.provider.isAssignable name target with
    | .error e => .error e
    | .ok true => .ok (some h)
    | .ok false => s.firstAssignable target rest

/-- The first node that is indexed under a key with a type that may be used as the target. -/
def lookupNodeByKey (s : Session) (target : TypeName) (key : Key) : Except Error (Option Handle) :=
  match s.primaryIndex.get? key with
  | some byType => s.firstAssignable target byType.entries
  | none => .ok none

/-! ## Registering -/

/-- The key that an entity has by its primary index. No index, no value and a null value are no key;
any other value that is no key is refused by a strict session and passed over by others. -/
def primaryKey (s : Session) (e : Entity) : Except Error (Option Key) :=
  match s.provider.indexField e.typeName with
  | .error err => .error err
  | .ok none => .ok none
  | .ok (some field) =>
    match field.read e with
    | none => .ok none
    | some .null => .ok none
    | some v =>
      match Key.ofValue v with
      | .ok key => .ok (some key)
      | .error kind =>
        if s.config.strictPrimaryIndex then .error (.unindexableValue kind) else .ok none

/-- Indexes a node under a key, unless one of the same type is indexed there. -/
def indexNode (s : Session) (id : NativeId) (name : TypeName) (key : Key) (h : Handle) : Session :=
  let byType := (s.primaryIndex.get? key).getD .empty
  if byType.contains name then s
  else { s with
    primaryIndex := s.primaryIndex.insert key (byType.insert name h)
    indexedKeys := s.indexedKeys.insert id (key, name) }

/-- Tracks a node under an id that is free, remembers what it looks like, and indexes it if it has a
key. -/
def admitNode (s : Session) (heap : Heap) (h : Handle) (id : NativeId) (key : Option Key) : Session :=
  let s := { s with
    nodes := s.nodes.insert id h
    tracker := s.tracker.remember heap (heap.get h) }
  match key with
  | some key => s.indexNode id (heap.get h).typeName key h
  | none => s

/-- Registers a node unless its id is tracked already. The answer is the entity that was handed in,
which is not always the one that is tracked. -/
def registerNode (s : Session) (heap : Heap) (h : Handle) : Outcome Handle :=
  match (heap.get h).id with
  | none => ⟨s, .ok h⟩
  | some id =>
    if s.nodes.contains id then ⟨s, .ok h⟩
    else match s.primaryKey (heap.get h) with
      | .error e => ⟨s, .error e⟩
      | .ok key => ⟨s.admitNode heap h id key, .ok h⟩

/-! ## Removing -/

/-- Drops the index entry of a node id; a key without entries is dropped with it. -/
def unindexNode (s : Session) (id : NativeId) : Session :=
  match s.indexedKeys.get? id with
  | none => s
  | some (key, name) =>
    let primaryIndex := match s.primaryIndex.get? key with
      | none => s.primaryIndex
      | some byType =>
        let rest := byType.erase name
        if rest.isEmpty then s.primaryIndex.erase key else s.primaryIndex.insert key rest
    { s with primaryIndex := primaryIndex, indexedKeys := s.indexedKeys.erase id }

/-- Stops tracking the node with an id. -/
def dropNode (s : Session) (id : NativeId) : Session :=
  unindexNode { s with nodes := s.nodes.erase id } id

/-- Stops tracking the node with the id of an entity, if the entity has one. -/
def dropNodeOf (s : Session) (e : Entity) : Session :=
  match e.id with
  | some id => s.dropNode id
  | none => s

/-- Whether an object is the given one or carries the same id. Objects without an id share none. -/
def isSameNode (heap : Heap) (h : Handle) : Option Handle → Bool
  | none => false
  | some k => k = h || ((heap.get h).id.isSome && (heap.get k).id = (heap.get h).id)

/-- Of some relationship entities the ids of those that start or end at a node. -/
def dependents (s : Session) (heap : Heap) (h : Handle) :
    List (NativeId × Handle) → Except Error (List NativeId)
  | [] => .ok []
  | (id, r) :: rest =>
    match s.endpoints (heap.get r) with
    | .error e => .error e
    | .ok (start, stop) =>
      match s.dependents heap h rest with
      | .error e => .error e
      | .ok ids =>
        .ok (if isSameNode heap h start || isSameNode heap h stop then id :: ids else ids)

/-- Stops tracking the relationship entities that start or end at a node, with the records that name
them; none of them if the ends of one cannot be told. -/
def dropDependents (s : Session) (heap : Heap) (h : Handle) : Outcome Unit :=
  match s.dependents heap h s.relationships.entries with
  | .error e => ⟨s, .error e⟩
  | .ok ids => ⟨ids.foldl forgetRelationship s, .ok ()⟩

/-- Stops tracking a node; with `withDependents` also the relationship entities that start or end
there. Records that only touch the node stay. -/
def removeNode (s : Session) (heap : Heap) (h : Handle) (withDependents : Bool) : Outcome Unit :=
  let s := s.dropNodeOf (heap.get h)
  if withDependents then s.dropDependents heap h else ⟨s, .ok ()⟩

/-- Registers a node in the place of the one that is tracked under its id. -/
def replaceNode (s : Session) (heap : Heap) (h : Handle) : Outcome Handle :=
  (s.dropNodeOf (heap.get h)).registerNode heap h

end ObjectGraph.Session
