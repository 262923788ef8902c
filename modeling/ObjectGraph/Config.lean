/-!
# Session configuration

What a session can be told when it is opened: how much room to set aside at first, and whether a node
whose primary key is no key is refused. Room must be positive; how much it is has no visible effect.
-/

set_option autoImplicit false

namespace ObjectGraph

/-- The configuration of a session. -/
structure Config where
  nodeCapacity : UInt64 := 1024
  relationshipCapacity : UInt64 := 4096
  /-- A node is refused if its primary-index property holds something that is no key; otherwise it is
  tracked by its id alone. A missing or null property is never refused. -/
  strictPrimaryIndex : Bool := false
deriving DecidableEq, Repr

namespace Config

/-- The configuration of a session that is told nothing. -/
def standard : Config where

/-- What may be wrong with a configuration. -/
inductive Defect where
  | noNodeCapacity
  | noRelationshipCapacity
deriving DecidableEq, Repr

def Defect.message : Defect → String
  | noNodeCapacity => "node_capacity must be positive"
  | noRelationshipCapacity => "relationship_capacity must be positive"

/-- The configuration itself if nothing is wrong with it; the room for nodes is looked at first. -/
def validate (c : Config) : Except Defect Config :=
  if c.nodeCapacity = 0 then .error .noNodeCapacity
  else if c.relationshipCapacity = 0 then .error .noRelationshipCapacity
  else .ok c

theorem validate_eq_ok_iff {c d : Config} :
    c.validate = .ok d ↔ c = d ∧ c.nodeCapacity ≠ 0 ∧ c.relationshipCapacity ≠ 0 := by
  unfold validate
  split
  · simp_all
  · split <;> simp_all

end Config

end ObjectGraph
