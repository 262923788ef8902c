import ObjectGraph.Session.State

/-!
# Relationship entities and records

A relationship entity is registered under an id that the caller names, and is expected to carry that
id itself; its snapshot is kept under the id that it carries. Its type is not looked at. A record that
names a relationship entity which is not tracked is kept structurally.
-/

set_option autoImplicit false

namespace ObjectGraph.Session

def lookupRelationship (s : Session) (id : NativeId) : Option Handle := s.relationships.get? id

/-- Tracks an entity under an id that is free, and remembers what it looks like. -/
def admitRelationship (s : Session) (heap : Heap) (h : Handle) (id : NativeId) : Session :=
  { s with
    relationships := s.relationships.insert id h
    tracker := s.tracker.remember heap (heap.get h) }

/-- Registers a relationship entity under an id, unless one is tracked there; the answer is the entity
that is tracked there in the end. -/
def registerRelationship (s : Session) (heap : Heap) (h : Handle) (id : NativeId) : Session × Handle :=
  match s.relationships.get? id with
  | some tracked => (s, tracked)
  | none => (s.admitRelationship heap h id, h)

/-- Registers a relationship entity in the place of the one that is tracked under an id. Records that
name the id stay, and name the new entity from then on. -/
def replaceRelationship (s : Session) (heap : Heap) (h : Handle) (id : NativeId) : Session × Handle :=
  registerRelationship { s with relationships := s.relationships.erase id } heap h id

/-- Stops tracking the relationship entity under an id and every record that names it. -/
def forgetRelationship (s : Session) (id : NativeId) : Session :=
  if s.relationships.contains id then
    { s with
      relationships := s.relationships.erase id
      records := s.records.filter fun r => !r.names id }
  else s

/-- The record as it is tracked: structural if it names a relationship entity that is not. -/
def settle (s : Session) (r : Record) : Record :=
  match r.relationship with
  | some id => if s.relationships.contains id then r else r.structural
  | none => r

/-- Tracks a record; the answer is whether that is new. -/
def addRecord (s : Session) (r : Record) : Session × Bool :=
  let r := s.settle r
  ({ s with records := s.records.insert r }, decide (r ∉ s.records))

/-- Whether exactly this record is tracked. -/
def containsRecord (s : Session) (r : Record) : Bool := decide (r ∈ s.records)

/-- Stops tracking a record; the answer is whether it was tracked. -/
def removeRecord (s : Session) (r : Record) : Session × Bool :=
  ({ s with records := s.records.erase r }, decide (r ∈ s.records))

end ObjectGraph.Session
