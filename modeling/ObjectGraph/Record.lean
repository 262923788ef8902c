import ObjectGraph.Key
import ObjectGraph.Name

/-!
# Relationship records

A record states that an edge of some type runs from one node id to another. It may name the
relationship entity that carries the edge; without one it is known structurally only. Records are
compared by all four parts, so a structural record and one that names an entity are two records.
-/

set_option autoImplicit false

namespace ObjectGraph

/-- An edge between two node ids, with the relationship entity behind it if it has one. -/
structure Record where
  startNode : NativeId
  endNode : NativeId
  edgeType : EdgeType
  relationship : Option NativeId
deriving DecidableEq, Repr

namespace Record

def touches (r : Record) (node : NativeId) : Bool := r.startNode = node || r.endNode = node

/-- The end opposite to a node that the record touches. A loop leads back to the node. -/
def otherEnd? (r : Record) (node : NativeId) : Option NativeId :=
  if r.endNode = node then some r.startNode
  else if r.startNode = node then some r.endNode
  else none

def names (r : Record) (relationship : NativeId) : Bool := r.relationship = some relationship

/-- The record without the relationship entity behind it. -/
def structural (r : Record) : Record := { r with relationship := none }

/-- By start, end, type and relationship, in this order. -/
instance : Ord Record where
  compare r s :=
    (compare r.startNode s.startNode).then <|
    (compare r.endNode s.endNode).then <|
    (compare r.edgeType s.edgeType).then <|
    compareIds r.relationship s.relationship

/-- The record drawn as an arrow, such as `(1)-[:KNOWS #10]->(2)`. -/
def text (r : Record) : String :=
  let entity := match r.relationship with
    | some id => " #" ++ toString id
    | none => ""
  "(" ++ toString r.startNode ++ ")-[:" ++ r.edgeType.text ++ entity ++ "]->(" ++
    toString r.endNode ++ ")"

theorem touches_iff {r : Record} {node : NativeId} :
    r.touches node = true ↔ r.startNode = node ∨ r.endNode = node := by
  simp [touches]

end Record

end ObjectGraph
