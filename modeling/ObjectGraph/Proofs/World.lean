import ObjectGraph.Session.Removal

/-!
# Worlds and operations

A session never stands alone: the entities that it tracks lie in a heap, and between two calls to the
session whoever holds an entity may change it. A `World` is the heap together with one session over
it, and an `Operation` is anything that moves it: a call to the session that may change something, or
an entity made or changed by somebody else. Questions to a session are no operations, since they leave
the world as it is.

An operation always leaves a world behind, also when its answer is an error (`World.after`): what it
did before it failed stays done. A run is a list of operations one after the other (`World.run`). What
holds at first and is kept by every operation holds after every run (`World.run_keeps`); where callers
keep to some rule, only the operations that follow the rule need to keep it
(`World.run_keeps_of_follows`).
-/

set_option autoImplicit false

namespace ObjectGraph

/-- Whatever moves a world. -/
inductive Operation where
  /-- Somebody makes an entity. -/
  | create (e : Entity)
  /-- Somebody changes an entity, or puts another in its place: anything may differ afterwards, also its
  id and its type. -/
  | edit (h : Handle) (change : Entity → Entity)
  | registerNode (h : Handle)
  | replaceNode (h : Handle)
  | removeNode (h : Handle) (withDependents : Bool)
  | registerRelationship (h : Handle) (id : NativeId)
  | replaceRelationship (h : Handle) (id : NativeId)
  | addRecord (r : Record)
  | removeRecord (r : Record)
  | removeEntity (h : Handle)
  | removeType (name : TypeName)
  | reset (h : Handle)
  | detachNode (key : Key)
  | detachRelationship (id : NativeId)
  | clear
  /-- The session gets another tracker. -/
  | track (tracker : Tracker)

/-- A heap and a session over it. -/
structure World where
  heap : Heap
  session : Session

namespace World

/-- A session that has just been made, over entities that may be there already. -/
def start (heap : Heap) (provider : Schema.Provider) (config : Config) : World :=
  ⟨heap, .fresh provider config⟩

/-- The world that an operation leaves behind, whatever it answers. -/
def after (w : World) : Operation → World
  | .create e => { w with heap := (w.heap.alloc e).1 }
  | .edit h change => { w with heap := w.heap.modify h change }
  | .registerNode h => { w with session := (w.session.registerNode w.heap h).session }
  | .replaceNode h => { w with session := (w.session.replaceNode w.heap h).session }
  | .removeNode h withDependents =>
    { w with session := (w.session.removeNode w.heap h withDependents).session }
  | .registerRelationship h id =>
    { w with session := (w.session.registerRelationship w.heap h id).1 }
  | .replaceRelationship h id =>
    { w with session := (w.session.replaceRelationship w.heap h id).1 }
  | .addRecord r => { w with session := (w.session.addRecord r).1 }
  | .removeRecord r => { w with session := (w.session.removeRecord r).1 }
  | .removeEntity h => { w with session := (w.session.purge w.heap h).session }
  | .removeType name => { w with session := (w.session.removeType w.heap name).session }
  | .reset h => ⟨(w.session.reset w.heap h).1, (w.session.reset w.heap h).2.session⟩
  | .detachNode key => { w with session := (w.session.detachNode w.heap key).session }
  | .detachRelationship id =>
    { w with session := (w.session.detachRelationship w.heap id).session }
  | .clear => { w with session := w.session.clear }
  | .track tracker => { w with session := w.session.withTracker tracker }

/-! ## Runs -/

/-- The world after one operation after the other. -/
def run (w : World) : List Operation → World
  | [] => w
  | op :: rest => (w.after op).run rest

theorem run_append (w : World) (ops rest : List Operation) :
    w.run (ops ++ rest) = (w.run ops).run rest := by
  induction ops generalizing w with
  | nil => rfl
  | cons op ops ih => exact ih (w.after op)

theorem run_concat (w : World) (ops : List Operation) (op : Operation) :
    w.run (ops ++ [op]) = (w.run ops).after op := run_append w ops [op]

/-- Each operation of a run keeps to a rule in the world in which it is done. -/
def Follows (rule : World → Operation → Prop) (w : World) : List Operation → Prop
  | [] => True
  | op :: rest => rule w op ∧ (w.after op).Follows rule rest

theorem follows_append {rule : World → Operation → Prop} {w : World} {ops rest : List Operation} :
    w.Follows rule (ops ++ rest) ↔ w.Follows rule ops ∧ (w.run ops).Follows rule rest := by
  induction ops generalizing w with
  | nil => exact ⟨fun h => ⟨trivial, h⟩, fun h => h.2⟩
  | cons op ops ih =>
    constructor
    · rintro ⟨hop, h⟩
      obtain ⟨hops, hrest⟩ := ih.mp h
      exact ⟨⟨hop, hops⟩, hrest⟩
    · rintro ⟨⟨hop, hops⟩, hrest⟩
      exact ⟨hop, ih.mpr ⟨hops, hrest⟩⟩

/-- A run that keeps to a rule keeps to every rule that asks for less. -/
theorem Follows.mono {rule weaker : World → Operation → Prop}
    (h : ∀ w op, rule w op → weaker w op) {w : World} {ops : List Operation}
    (hf : w.Follows rule ops) : w.Follows weaker ops := by
  induction ops generalizing w with
  | nil => trivial
  | cons op ops ih => exact ⟨h w op hf.1, ih hf.2⟩

/-- What every operation keeps, every run keeps. -/
theorem run_keeps {P : World → Prop} (step : ∀ {w} op, P w → P (w.after op)) {w : World} (h : P w)
    (ops : List Operation) : P (w.run ops) := by
  induction ops generalizing w with
  | nil => exact h
  | cons op ops ih => exact ih (step op h)

/-- What every operation within a rule keeps, every run that keeps to the rule keeps. -/
theorem run_keeps_of_follows {rule : World → Operation → Prop} {P : World → Prop}
    (step : ∀ {w op}, rule w op → P w → P (w.after op)) {w : World} (h : P w)
    {ops : List Operation} (hf : w.Follows rule ops) : P (w.run ops) := by
  induction ops generalizing w with
  | nil => exact h
  | cons op ops ih => exact ih (step hf.1 h) hf.2

/-! ## A small world -/

/-- Persons, and their acquaintances as relationships. -/
def acquaintance : Schema.Domain :=
  ⟨.ofList [(⟨"Person"⟩, ⟨⟨"Person"⟩, .node, none, .empty⟩),
    (⟨"Knows"⟩, ⟨⟨"Knows"⟩, .relationship "from" "to", none, .empty⟩)]⟩

/-- Two persons, and that the first knows the second. -/
def twoPersons : Heap :=
  ⟨#[{ typeName := ⟨"Person"⟩, id := some 1 }, { typeName := ⟨"Person"⟩, id := some 2 },
    { typeName := ⟨"Knows"⟩, id := some 5, references := .ofList [("from", ⟨0⟩), ("to", ⟨1⟩)] }]⟩

/-- The edge of the acquaintance. -/
def knows : Record := ⟨1, 2, ⟨"KNOWS"⟩, some 5⟩

/-- All three are registered, and the edge is recorded. -/
def acquainted : List Operation :=
  [.registerNode ⟨0⟩, .registerNode ⟨1⟩, .registerRelationship ⟨2⟩ 5, .addRecord knows]

end World

end ObjectGraph
