import ObjectGraph.Digest.Content
import ObjectGraph.LabelHistory

/-!
# The tracker

A tracker remembers what an entity looked like and tells later whether it still looks so. What it
remembers is a snapshot, the digest of the content and the labels, kept under the type and the id of
the entity; an entity without an id is not remembered. A later snapshot takes the place of an earlier
one with the same type and id, whichever object it was taken of.
-/

set_option autoImplicit false

namespace ObjectGraph

/-- What an entity looked like. -/
structure Snapshot where
  digest : Sha256.Words
  labels : NameSet .label
deriving DecidableEq

/-- The snapshots by type and id. -/
structure Tracker where
  snapshots : Table (TypeName × NativeId) Snapshot

namespace Tracker

def empty : Tracker := ⟨.empty⟩

def size (t : Tracker) : Nat := t.snapshots.size

def isEmpty (t : Tracker) : Bool := t.snapshots.isEmpty

/-- What an entity looks like now. -/
def snapshotOf (heap : Heap) (e : Entity) : Snapshot := ⟨e.digest heap, e.labels⟩

/-- The snapshot under the type and the id of an entity. -/
def snapshot? (t : Tracker) (e : Entity) : Option Snapshot :=
  match e.id with
  | some id => t.snapshots.get? (e.typeName, id)
  | none => none

/-- Takes a snapshot of an entity. -/
def remember (t : Tracker) (heap : Heap) (e : Entity) : Tracker :=
  match e.id with
  | some id => ⟨t.snapshots.insert (e.typeName, id) (snapshotOf heap e)⟩
  | none => t

/-- Whether an entity looks as its snapshot says. Without a snapshot it does not. -/
def isRemembered (t : Tracker) (heap : Heap) (e : Entity) : Bool :=
  match t.snapshot? e with
  | some s => s.digest = e.digest heap
  | none => false

/-- The labels of the snapshot, none if there is no snapshot, beside the labels now. -/
def labelHistory (t : Tracker) (e : Entity) : LabelHistory where
  previous := match t.snapshot? e with
    | some s => s.labels
    | none => .empty
  current := e.labels

theorem snapshot?_remember_self (t : Tracker) (heap : Heap) {e : Entity} {id : NativeId}
    (hid : e.id = some id) : (t.remember heap e).snapshot? e = some (snapshotOf heap e) := by
  simp only [remember, snapshot?, hid, Table.get?_insert, if_true]

/-- A snapshot takes the place of those with the same type and id only. -/
theorem snapshot?_remember_of_ne (t : Tracker) (heap : Heap) {e f : Entity}
    (hne : e.typeName ≠ f.typeName ∨ e.id ≠ f.id) :
    (t.remember heap e).snapshot? f = t.snapshot? f := by
  cases he : e.id with
  | none => simp only [remember, he]
  | some i =>
    cases hf : f.id with
    | none => simp only [snapshot?, hf]
    | some j =>
      have hkey : (f.typeName, j) ≠ (e.typeName, i) := by
        intro heq
        obtain ⟨htype, rfl⟩ := Prod.mk.inj heq
        rcases hne with hne | hne
        · exact hne htype.symm
        · exact hne (he.trans hf.symm)
      simp only [remember, snapshot?, he, hf, Table.get?_insert, if_neg hkey]

/-- What is remembered under the type and the id of an entity depends on nothing else of it. -/
theorem snapshot?_congr (t : Tracker) {e f : Entity} (hid : f.id = e.id)
    (htype : f.typeName = e.typeName) : t.snapshot? f = t.snapshot? e := by
  rw [snapshot?, snapshot?, hid, htype]

theorem isRemembered_iff {t : Tracker} {heap : Heap} {e : Entity} {s : Snapshot}
    (hs : t.snapshot? e = some s) : t.isRemembered heap e = true ↔ s.digest = e.digest heap := by
  simp only [isRemembered, hs, decide_eq_true_iff]

/-- An entity with an id looks as it is remembered right after it was. -/
theorem isRemembered_remember_self (t : Tracker) (heap : Heap) {e : Entity} {id : NativeId}
    (hid : e.id = some id) : (t.remember heap e).isRemembered heap e = true :=
  (isRemembered_iff (snapshot?_remember_self t heap hid)).mpr rfl

theorem labelHistory_remember_self (t : Tracker) (heap : Heap) {e : Entity} {id : NativeId}
    (hid : e.id = some id) : (t.remember heap e).labelHistory e = ⟨e.labels, e.labels⟩ := by
  simp only [labelHistory, snapshot?_remember_self t heap hid, snapshotOf]

end Tracker

end ObjectGraph
