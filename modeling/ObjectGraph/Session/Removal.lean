import ObjectGraph.Session.Purge
import ObjectGraph.Session.Query

/-!
# Removing entities

Every way to remove an entity for good is a purge of some entities: of one that is handed in, of one
that is found by a key or an id, or of all that are of a type. Only `reset` changes an entity.
-/

set_option autoImplicit false

namespace ObjectGraph.Session

open Schema

/-- Purges the tracked entities of a concrete type and of its subtypes. -/
def removeConcreteType (s : Session) (heap : Heap) (name : TypeName) : Outcome Unit :=
  match s.entitiesOf heap name with
  | .error e => ⟨s, .error e⟩
  | .ok entities => forEach (fun s h => s.purge heap h) s entities

/-- Purges the tracked entities of a type and of its subtypes; of an interface, those of each type
that implements it. What a provider names as implementing an interface are concrete types, and this
rests on it: the types named are not asked again whether they are interfaces themselves. -/
def removeType (s : Session) (heap : Heap) (name : TypeName) : Outcome Unit :=
  match s.provider.isInterface name with
  | .error e => ⟨s, .error e⟩
  | .ok false => s.removeConcreteType heap name
  | .ok true =>
    match s.provider.implementingTypes name with
    | .error e => ⟨s, .error e⟩
    | .ok names => forEach (fun s name => s.removeConcreteType heap name) s names

/-- Purges an entity and takes its id away, for an id that the backing store has given and taken back.
If the purge fails, the entity keeps its id. -/
def reset (s : Session) (heap : Heap) (h : Handle) : Heap × Outcome Unit :=
  let purged := s.purge heap h
  match purged.answer with
  | .ok _ => (heap.modify h (Entity.withId · none), purged)
  | .error _ => (heap, purged)

/-- Purges an entity that may have been found, and answers whether it was. -/
def purgeFound (s : Session) (heap : Heap) : Option Handle → Outcome Bool
  | some h => (s.purge heap h).andThen fun s _ => ⟨s, .ok true⟩
  | none => ⟨s, .ok false⟩

/-- Purges the node that a key finds, and answers whether there is one. -/
def detachNode (s : Session) (heap : Heap) (key : Key) : Outcome Bool :=
  s.purgeFound heap (s.lookupNode key)

/-- Purges the relationship entity that is tracked under an id, and answers whether there is one. -/
def detachRelationship (s : Session) (heap : Heap) (id : NativeId) : Outcome Bool :=
  s.purgeFound heap (s.lookupRelationship id)

end ObjectGraph.Session
