import ObjectGraph.Proofs.Effect

/-!
# The primary index

Three registers know of an indexed node: `nodes` holds it by its id, `primaryIndex` by its key and its
type, and `indexedKeys` says for its id under which key and type that is. `IndexCoherent` says that
the three agree: each claim of `indexedKeys` is borne out by the other two with one and the same
object, each entry of the index is claimed by exactly one id, and no key is kept without entries.

Entities take no part in it. The key and the type of an entry are those that the node had when it was
registered, and the entry is found again through `indexedKeys` alone; so the registers stay coherent
however entities change, whatever the provider answers, and wherever an operation breaks off.

An entry is read by `indexedAt?`, and `indexed` is the order of the entries under a key.
-/

set_option autoImplicit false

namespace ObjectGraph.Session

/-- The node that is indexed under a key and a type. -/
def indexedAt? (s : Session) (key : Key) (name : TypeName) : Option Handle :=
  (s.primaryIndex.get? key).bind fun byType => byType.get? name

/-- The entries under a key, in their order. -/
def indexed (s : Session) (key : Key) : List (TypeName × Handle) :=
  ((s.primaryIndex.get? key).getD .empty).entries

theorem indexedAt?_eq_some_iff {s : Session} {key : Key} {name : TypeName} {h : Handle} :
    s.indexedAt? key name = some h ↔ (name, h) ∈ s.indexed key := by
  unfold indexedAt? indexed
  cases s.primaryIndex.get? key with
  | none => exact ⟨nofun, fun hmem => absurd hmem List.not_mem_nil⟩
  | some byType => exact Table.get?_eq_some_iff

theorem firstIndexed_eq (s : Session) (key : Key) :
    s.firstIndexed key = ((s.indexed key).map Prod.snd).head? := by
  unfold firstIndexed indexed
  cases s.primaryIndex.get? key <;> rfl

theorem lookupNodeByKey_eq (s : Session) (target : TypeName) (key : Key) :
    s.lookupNodeByKey target key = s.firstAssignable target (s.indexed key) := by
  unfold lookupNodeByKey indexed
  cases s.primaryIndex.get? key <;> rfl

/-! ## Dropping an entry -/

/-- The claim of an id is dropped, and no other. -/
@[simp] theorem get?_indexedKeys_dropNode (s : Session) (id j : NativeId) :
    (s.dropNode id).indexedKeys.get? j = if j = id then none else s.indexedKeys.get? j := by
  unfold dropNode unindexNode
  split
  next hnone =>
    split
    next hj => exact hj ▸ hnone
    next => rfl
  next => exact Table.get?_erase _ _ _

/-- Dropping a node without a claim leaves the index as it is. -/
theorem primaryIndex_dropNode_of_none {s : Session} {id : NativeId}
    (h : s.indexedKeys.get? id = none) : (s.dropNode id).primaryIndex = s.primaryIndex := by
  simp only [dropNode, unindexNode, h]

/-- Dropping a node with a claim takes its entry from the bucket, and the bucket away if that was the
last entry. -/
theorem get?_primaryIndex_dropNode_of_some {s : Session} {id : NativeId} {key : Key}
    {name : TypeName} (h : s.indexedKeys.get? id = some (key, name)) (j : Key) :
    (s.dropNode id).primaryIndex.get? j =
      if j = key then
        (s.primaryIndex.get? key).bind fun byType =>
          if (byType.erase name).isEmpty then none else some (byType.erase name)
      else s.primaryIndex.get? j := by
  simp only [dropNode, unindexNode, h]
  by_cases hj : j = key
  · subst hj
    rw [if_pos rfl]
    cases hb : s.primaryIndex.get? j with
    | none => exact hb
    | some byType =>
      dsimp only [Option.bind_some]
      by_cases hempty : (byType.erase name).isEmpty = true
      · rw [if_pos hempty, if_pos hempty, Table.get?_erase, if_pos rfl]
      · rw [if_neg hempty, if_neg hempty, Table.get?_insert, if_pos rfl]
  · rw [if_neg hj]
    split
    next => rfl
    next =>
      split
      next => rw [Table.get?_erase, if_neg hj]
      next => rw [Table.get?_insert, if_neg hj]

/-- The entry that the id claims goes, and the others keep their order. -/
theorem indexed_dropNode (s : Session) (id : NativeId) (j : Key) :
    (s.dropNode id).indexed j =
      (s.indexed j).filter fun e => decide (s.indexedKeys.get? id ≠ some (j, e.1)) := by
  cases h : s.indexedKeys.get? id with
  | none =>
    rw [indexed, primaryIndex_dropNode_of_none h]
    exact (List.filter_eq_self.mpr fun e _ => by simp).symm
  | some claim =>
    obtain ⟨key, name⟩ := claim
    rw [indexed, indexed, get?_primaryIndex_dropNode_of_some h]
    by_cases hj : j = key
    · subst hj
      rw [if_pos rfl]
      cases s.primaryIndex.get? j with
      | none => rfl
      | some byType =>
        have hrest : (byType.erase name).entries =
            byType.entries.filter fun e => decide (some (j, name) ≠ some (j, e.1)) :=
          List.filter_congr fun e _ => by simp [eq_comm]
        rw [Option.getD_some, ← hrest, Option.bind_some]
        split
        next hempty => exact (List.isEmpty_iff.mp hempty).symm
        next => rfl
    · rw [if_neg hj]
      exact (List.filter_eq_self.mpr fun e _ => by simp [Ne.symm hj]).symm

theorem indexedAt?_dropNode {s : Session} {id : NativeId} {key : Key} {name : TypeName}
    {h : Handle} : (s.dropNode id).indexedAt? key name = some h ↔
      s.indexedAt? key name = some h ∧ s.indexedKeys.get? id ≠ some (key, name) := by
  rw [indexedAt?_eq_some_iff, indexedAt?_eq_some_iff, indexed_dropNode, List.mem_filter,
    decide_eq_true_iff]

/-! ## Adding an entry -/

/-- Whether a key is free for a type. -/
theorem contains_byType {s : Session} {key : Key} {name : TypeName} :
    ((s.primaryIndex.get? key).getD .empty).contains name = (s.indexedAt? key name).isSome := by
  unfold indexedAt?
  cases s.primaryIndex.get? key <;> rfl

/-- A place that is taken stays as it is. -/
theorem indexNode_of_taken {s : Session} {key : Key} {name : TypeName} {k : Handle}
    (h : s.indexedAt? key name = some k) (id : NativeId) (h' : Handle) :
    s.indexNode id name key h' = s := by
  have : ((s.primaryIndex.get? key).getD .empty).contains name = true := by
    rw [contains_byType, h]
    rfl
  simp only [indexNode, this, if_true]

/-- A place that is free is written, and the id claims it. -/
theorem indexNode_of_free {s : Session} {key : Key} {name : TypeName}
    (h : s.indexedAt? key name = none) (id : NativeId) (k : Handle) :
    s.indexNode id name key k =
      { s with
        primaryIndex :=
          s.primaryIndex.insert key (((s.primaryIndex.get? key).getD .empty).insert name k)
        indexedKeys := s.indexedKeys.insert id (key, name) } := by
  have : ((s.primaryIndex.get? key).getD .empty).contains name = false := by
    rw [contains_byType, h]
    rfl
  simp only [indexNode, this, Bool.false_eq_true, if_false]

/-- A new entry comes after the others under its key. -/
theorem indexed_indexNode_of_free {s : Session} {key : Key} {name : TypeName}
    (h : s.indexedAt? key name = none) (id : NativeId) (k : Handle) (j : Key) :
    (s.indexNode id name key k).indexed j =
      if j = key then s.indexed key ++ [(name, k)] else s.indexed j := by
  have hnot : ((s.primaryIndex.get? key).getD .empty).contains name = false := by
    rw [contains_byType, h]
    rfl
  rw [indexNode_of_free h, indexed, Table.get?_insert]
  by_cases hj : j = key
  · rw [if_pos hj, if_pos hj, Option.getD_some, Table.insert, dif_neg (by simp [hnot])]
    rfl
  · rw [if_neg hj, if_neg hj]
    rfl

theorem indexedAt?_indexNode_of_free {s : Session} {key : Key} {name : TypeName}
    (h : s.indexedAt? key name = none) {id : NativeId} {k : Handle} {j : Key} {n : TypeName}
    {k' : Handle} : (s.indexNode id name key k).indexedAt? j n = some k' ↔
      s.indexedAt? j n = some k' ∨ j = key ∧ n = name ∧ k' = k := by
  rw [indexedAt?_eq_some_iff, indexedAt?_eq_some_iff, indexed_indexNode_of_free h]
  by_cases hj : j = key <;> simp [hj]

theorem get?_indexedKeys_indexNode_of_free {s : Session} {key : Key} {name : TypeName}
    (h : s.indexedAt? key name = none) (id : NativeId) (k : Handle) (j : NativeId) :
    (s.indexNode id name key k).indexedKeys.get? j =
      if j = id then some (key, name) else s.indexedKeys.get? j := by
  rw [indexNode_of_free h, Table.get?_insert]

/-! ## Admitting a node -/

section Admission

variable (s : Session) (heap : Heap) (h : Handle) (id : NativeId) (key : Option Key)

variable {s heap h id} in
/-- Where another node of its type has the key, a node is admitted as if it had none. -/
theorem admitNode_of_taken {k : Key} {other : Handle}
    (htaken : s.indexedAt? k (heap.get h).typeName = some other) :
    s.admitNode heap h id (some k) = s.admitNode heap h id none :=
  indexNode_of_taken (s := s.admitNode heap h id none) htaken id h

/-- A node with a key that is free for its type comes after the others under the key. Where another
node of its type has the key, nothing changes. -/
theorem indexed_admitNode (j : Key) :
    (s.admitNode heap h id key).indexed j =
      if key = some j ∧ s.indexedAt? j (heap.get h).typeName = none then
        s.indexed j ++ [((heap.get h).typeName, h)]
      else s.indexed j := by
  cases key with
  | none => rfl
  | some k =>
    have hindexed : (s.admitNode heap h id none).indexed = s.indexed := rfl
    cases hplace : s.indexedAt? k (heap.get h).typeName with
    | some other =>
      rw [admitNode_of_taken hplace, hindexed, if_neg]
      rintro ⟨⟨⟩, hfree⟩
      rw [hplace] at hfree
      cases hfree
    | none =>
      have hnew : (s.admitNode heap h id (some k)).indexed j = _ :=
        indexed_indexNode_of_free (s := s.admitNode heap h id none) hplace id h j
      rw [hnew, hindexed]
      by_cases hj : j = k
      · subst hj
        rw [if_pos rfl, if_pos ⟨rfl, hplace⟩]
      · rw [if_neg hj, if_neg fun hk => hj (Option.some.inj hk.1).symm]

/-- The claims of other ids stay. -/
theorem get?_indexedKeys_admitNode_of_ne {j : NativeId} (hj : j ≠ id) :
    (s.admitNode heap h id key).indexedKeys.get? j = s.indexedKeys.get? j := by
  cases key with
  | none => rfl
  | some k =>
    show ((s.admitNode heap h id none).indexNode id (heap.get h).typeName k h).indexedKeys.get? j = _
    unfold indexNode
    dsimp only
    split
    · rfl
    · exact (Table.get?_insert _ _ _ _).trans (if_neg hj)

/-- An id that claimed nothing claims the entry that it gets. -/
theorem get?_indexedKeys_admitNode_self (hno : s.indexedKeys.get? id = none) {k : Key}
    {name : TypeName} :
    (s.admitNode heap h id key).indexedKeys.get? id = some (k, name) ↔
      name = (heap.get h).typeName ∧ key = some k ∧ s.indexedAt? k name = none := by
  cases key with
  | none => simp [admitNode, hno]
  | some k' =>
    cases hplace : s.indexedAt? k' (heap.get h).typeName with
    | some other =>
      have hclaim : (s.admitNode heap h id none).indexedKeys.get? id = none := hno
      rw [admitNode_of_taken hplace, hclaim]
      constructor
      · intro hno
        cases hno
      · rintro ⟨rfl, ⟨⟩, hfree⟩
        rw [hplace] at hfree
        cases hfree
    | none =>
      have hclaim : (s.admitNode heap h id (some k')).indexedKeys.get? id = _ :=
        get?_indexedKeys_indexNode_of_free (s := s.admitNode heap h id none) hplace id h id
      rw [hclaim, if_pos rfl, Option.some.injEq, Prod.mk.injEq, Option.some.injEq]
      constructor
      · rintro ⟨rfl, rfl⟩
        exact ⟨rfl, rfl, hplace⟩
      · rintro ⟨rfl, rfl, -⟩
        exact ⟨rfl, rfl⟩

end Admission

end ObjectGraph.Session
