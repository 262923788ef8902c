import ObjectGraph.RecordSet
import ObjectGraph.Schema.Provider
import ObjectGraph.Tracker

/-!
# Sessions

A session keeps one object for each node and each relationship that it has met, and knows which edges
there are between the nodes. What it tracks stands in registers:

* `nodes`, the node entities by native id;
* `primaryIndex`, the node entities by primary key and, under one key, by type, in the order in which
  they were registered;
* `indexedKeys`, for each node id the key and the type that its index entry stands under;
* `relationships`, the relationship entities by native id;
* `records`, the edges.

Every register keeps what came first. The entities themselves are in the heap, where anybody may
change them; a session takes a snapshot of each entity that it starts to track.

An operation leaves a session behind even when it fails (`Outcome`): what it did before it failed
stays done.
-/

set_option autoImplicit false

namespace ObjectGraph

open Schema

/-- What a session tracks, and what it works with. -/
structure Session where
  provider : Provider
  config : Config
  tracker : Tracker
  nodes : Table NativeId Handle
  primaryIndex : Table Key (Table TypeName Handle)
  indexedKeys : Table NativeId (Key × TypeName)
  relationships : Table NativeId Handle
  records : RecordSet

/-- What an operation leaves behind: the session afterwards, and the answer or the error. -/
structure Outcome (α : Type) where
  session : Session
  answer : Except Error α

namespace Outcome

variable {α β : Type}

/-- An operation that goes on where another succeeded. -/
def andThen (o : Outcome α) (next : Session → α → Outcome β) : Outcome β :=
  match o.answer with
  | .ok a => next o.session a
  | .error e => ⟨o.session, .error e⟩

end Outcome

namespace Session

/-- A session that tracks nothing. -/
def fresh (provider : Provider) (config : Config) : Session where
  provider := provider
  config := config
  tracker := .empty
  nodes := .empty
  primaryIndex := .empty
  indexedKeys := .empty
  relationships := .empty
  records := .empty

/-- A new session with the standard configuration. -/
def new (provider : Provider) : Session := fresh provider .standard

/-- A new session with a configuration, which must be valid. -/
def withConfig (provider : Provider) (config : Config) : Except Error Session :=
  match config.validate with
  | .ok config => .ok (fresh provider config)
  | .error defect => .error (.config defect)

/-- The session with another tracker; what the former one remembered is gone. -/
def withTracker (s : Session) (tracker : Tracker) : Session := { s with tracker := tracker }

def isEmpty (s : Session) : Bool :=
  s.nodes.isEmpty && s.primaryIndex.isEmpty && s.relationships.isEmpty && s.records.isEmpty

/-- The session without anything tracked or remembered. -/
def clear (s : Session) : Session := fresh s.provider s.config

/-- Applies an operation to each item of a list until one fails. -/
def forEach {α : Type} (step : Session → α → Outcome Unit) : Session → List α → Outcome Unit
  | s, [] => ⟨s, .ok ()⟩
  | s, a :: rest => (step s a).andThen fun s _ => forEach step s rest

def text (s : Session) : String :=
  "MappingContext \x7b nodes: " ++ toString s.nodes.size ++
    ", primary_index: " ++ toString s.primaryIndex.size ++
    ", relationship_entities: " ++ toString s.relationships.size ++
    ", relationships: " ++ toString s.records.size ++
    ", snapshots: " ++ toString s.tracker.size ++ " \x7d"

end Session

end ObjectGraph
