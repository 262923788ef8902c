import ObjectGraph.Session.Nodes

/-!
# Asking a session

Questions that change nothing: which entities are one step away, which are of some type, and whether
an entity has changed since it was registered.
-/

set_option autoImplicit false

namespace ObjectGraph.Session

open Schema

/-! ## Neighbours -/

/-- The tracked nodes at the other ends of the records that touch a node id. -/
def joinedNodes (s : Session) (id : NativeId) : List Handle :=
  s.records.toList.filterMap fun r => (r.otherEnd? id).bind s.nodes.get?

/-- The objects one step away from an entity, each once: from a tracked node the tracked nodes that a
record joins to it, from a tracked relationship entity its start and its end. -/
def neighbours (s : Session) (heap : Heap) (h : Handle) : Except Error (List Handle) :=
  let e := heap.get h
  match e.id with
  | none => .ok []
  | some id =>
    match s.provider.isRelationshipType e.typeName with
    | .error err => .error err
    | .ok false => .ok (if s.nodes.contains id then (s.joinedNodes id).eraseDups else [])
    | .ok true =>
      if s.relationships.contains id then
        match s.endpoints e with
        | .error err => .error err
        | .ok (start, stop) => .ok (start.toList ++ stop.toList).eraseDups
      else .ok []

/-! ## Entities of a type -/

/-- Those of some objects whose type may be used as the target. -/
def assignable (s : Session) (heap : Heap) (target : TypeName) :
    List Handle → Except Error (List Handle)
  | [] => .ok []
  | h :: rest =>
    match s.provider.isAssignable (heap.get h).typeName target with
    | .error e => .error e
    | .ok fits =>
      match s.assignable heap target rest with
      | .error e => .error e
      | .ok hs => .ok (if fits then h :: hs else hs)

/-- An object without an id comes before those with one, and those are ordered by it. -/
def idLe (heap : Heap) (h k : Handle) : Bool :=
  (compareIds (heap.get h).id (heap.get k).id).isLE

/-- The register in which the instances of a type are tracked. -/
def registerOf (s : Session) (name : TypeName) : Except Error (Table NativeId Handle) :=
  match s.provider.isRelationshipType name with
  | .error e => .error e
  | .ok true => .ok s.relationships
  | .ok false => .ok s.nodes

/-- The tracked entities of a type and of its subtypes, ordered by id. Only one register is searched:
the relationships for a relationship type, else the nodes. -/
def entitiesOf (s : Session) (heap : Heap) (name : TypeName) : Except Error (List Handle) :=
  match s.registerOf name with
  | .error e => .error e
  | .ok register =>
    (s.assignable heap name register.values).map fun hs => hs.mergeSort (idLe heap)

/-! ## Changes -/

/-- Whether an entity differs from its snapshot. One without a snapshot does. -/
def isDirty (s : Session) (heap : Heap) (h : Handle) : Bool :=
  !s.tracker.isRemembered heap (heap.get h)

/-- The labels of an entity when it was registered, beside those that it has now. -/
def labelHistory (s : Session) (heap : Heap) (h : Handle) : LabelHistory :=
  s.tracker.labelHistory (heap.get h)

end ObjectGraph.Session
