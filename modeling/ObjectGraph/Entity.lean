import ObjectGraph.NameSet
import ObjectGraph.Schema.TypeInfo
import ObjectGraph.Table
import ObjectGraph.Value
import ObjectGraph.Key

/-!
# Entities and the heap

An entity is an object in memory that stands for a node or for a relationship with an identity of its
own. Several parts of a program hold the same entity and see each other's changes, and entities refer
to one another, in cycles if need be. So entities live in a heap and are held by handles; two handles
are the same object exactly when they are equal, whatever the entities look like.

A heap answers for every handle: one that it has not given out holds the blank entity, and changing
that changes nothing.
-/

set_option autoImplicit false

namespace ObjectGraph

/-- An object of the heap. -/
structure Handle where
  index : Nat
deriving DecidableEq, Repr, Inhabited

/-- A node or a relationship in memory. -/
structure Entity where
  typeName : TypeName
  /-- The native id, once the backing store has given one. -/
  id : Option NativeId := none
  labels : NameSet .label := .empty
  properties : Table String Value := .empty
  references : Table String Handle := .empty

namespace Entity

/-- The entity of a type without a name that holds nothing. -/
def blank : Entity where
  typeName := ⟨""⟩

instance : Inhabited Entity := ⟨blank⟩

def withId (e : Entity) (id : Option NativeId) : Entity := { e with id := id }

def addLabel (e : Entity) (l : Label) : Entity := { e with labels := e.labels.insert l }

def removeLabel (e : Entity) (l : Label) : Entity := { e with labels := e.labels.erase l }

def setProperty (e : Entity) (key : String) (v : Value) : Entity :=
  { e with properties := e.properties.insert key v }

def removeProperty (e : Entity) (key : String) : Entity :=
  { e with properties := e.properties.erase key }

/-- The entity with a reference set to another object, or unset. -/
def setReference (e : Entity) (field : String) : Option Handle → Entity
  | some h => { e with references := e.references.insert field h }
  | none => { e with references := e.references.erase field }

/-- The short text of an entity: its type and its id, without what it refers to. -/
def text (e : Entity) : String :=
  let id := match e.id with
    | some id => "Some(" ++ toString id ++ ")"
    | none => "None"
  "EntityRef(" ++ e.typeName.text ++ "#" ++ id ++ ")"

end Entity

namespace Field

/-- What a property field holds; a reference field holds no value. -/
def read : Field → Entity → Option Value
  | property name, e => e.properties.get? name
  | reference _, _ => none

/-- What a reference field refers to; a property field refers to nothing. -/
def readReference : Field → Entity → Option Handle
  | reference name, e => e.references.get? name
  | property _, _ => none

end Field

/-- The entities of a program. -/
structure Heap where
  cells : Array Entity

namespace Heap

def empty : Heap := ⟨#[]⟩

/-- The entity that a handle holds at present. -/
def get (m : Heap) (h : Handle) : Entity := m.cells[h.index]?.getD .blank

def alloc (m : Heap) (e : Entity) : Heap × Handle := (⟨m.cells.push e⟩, ⟨m.cells.size⟩)

def modify (m : Heap) (h : Handle) (f : Entity → Entity) : Heap := ⟨m.cells.modify h.index f⟩

/-- The handle has been given out. -/
def Allocated (m : Heap) (h : Handle) : Prop := h.index < m.cells.size

theorem get_modify_self {m : Heap} {h : Handle} (ha : m.Allocated h) (f : Entity → Entity) :
    (m.modify h f).get h = f (m.get h) := by
  have ha : h.index < m.cells.size := ha
  rw [get, modify, Array.getElem?_modify]
  simp [get, ha]

theorem get_modify_of_ne {m : Heap} {h k : Handle} (hne : k ≠ h) (f : Entity → Entity) :
    (m.modify h f).get k = m.get k := by
  have hi : h.index ≠ k.index := fun e => hne (by cases h; cases k; cases e; rfl)
  simp [get, modify, Array.getElem?_modify, hi]

/-- Only an entity that has been made carries an id. -/
theorem allocated_of_id {m : Heap} {h : Handle} {id : NativeId} (hid : (m.get h).id = some id) :
    m.Allocated h := by
  show h.index < m.cells.size
  refine Nat.lt_of_not_le fun hout => ?_
  rw [get, Array.getElem?_eq_none hout] at hid
  cases hid

/-- Whatever the handle holds, it has no id once that was taken away. -/
theorem id_modify_withId_none (m : Heap) (h : Handle) :
    ((m.modify h (Entity.withId · none)).get h).id = none := by
  by_cases ha : m.Allocated h
  · rw [get_modify_self ha]
    rfl
  · have hout : m.cells.size ≤ h.index := Nat.le_of_not_lt ha
    rw [get, modify, Array.getElem?_modify, Array.getElem?_eq_none hout]
    simp [Entity.blank]

theorem get_alloc {m : Heap} {h : Handle} (ha : m.Allocated h) (e : Entity) :
    (m.alloc e).1.get h = m.get h := by
  have ha : h.index < m.cells.size := ha
  rw [get, alloc, Array.getElem?_push_lt ha, get, Array.getElem?_eq_getElem ha]

end Heap

end ObjectGraph
