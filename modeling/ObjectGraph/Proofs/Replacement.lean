import ObjectGraph.Proofs.KeyLog

/-!
# Replacing a node

To replace a node is to drop what is tracked under its id and to register the entity anew. Either part
keeps its word alone. Dropping never fails, and registering looks for the key before it touches any
register, so that a session which refuses an entity is the session that was asked
(`session_registerNode_of_error`).

One after the other they do not: by the time the entity is refused, the node that was tracked under its
id is gone. So a refused replacement loses that node with its index entry, keeps everything else, and
leaves things as they were only if there was no such node (`World.run_replaceNode_refused`).

An accepted replacement leaves no trace of the node that was there (`World.run_replaceNode_accepted`).
The entry of that node goes, under whatever key and type it stands, since it is found by the claim of
the id and not by anything that the entity holds now. The entity gets an entry by the key that it holds
at present, if the node that gave way was the only one to have that key for the type.
-/

set_option autoImplicit false

namespace ObjectGraph

open Schema

namespace Session

variable {s : Session} {heap : Heap} {h : Handle} {err : Error}

/-! ## Keys that cannot be told -/

/-- The key of an entity cannot be told if its type cannot be asked for its index, or if the session
is strict and the index holds something that is no key. -/
theorem primaryKey_eq_error_iff {e : Entity} :
    s.primaryKey e = .error err ↔
      s.provider.indexField e.typeName = .error err ∨
        s.config.strictPrimaryIndex = true ∧ ∃ field v kind,
          s.provider.indexField e.typeName = .ok (some field) ∧ field.read e = some v ∧
            v ≠ .null ∧ Key.ofValue v = .error kind ∧ err = .unindexableValue kind := by
  unfold primaryKey
  constructor
  · intro herr
    split at herr
    next hfield => exact .inl (hfield.trans (congrArg _ (Except.error.inj herr)))
    next => cases herr
    next field hfield =>
      split at herr
      next => cases herr
      next => cases herr
      next v hnull hread =>
        split at herr
        next => cases herr
        next kind hkind =>
          split at herr
          next hstrict =>
            refine .inr ⟨hstrict, field, v, kind, hfield, hread, ?_, hkind, ?_⟩
            · exact hnull
            · exact (Except.error.inj herr).symm
          next => cases herr
  · rintro (hfield | ⟨hstrict, field, v, kind, hfield, hread, hnull, hkind, rfl⟩)
    · simp only [hfield]
    · simp [hfield, hread, hkind, hstrict]

/-- What is tracked has no say in it. -/
@[simp] theorem primaryKey_dropNode (s : Session) (id : NativeId) (e : Entity) :
    (s.dropNode id).primaryKey e = s.primaryKey e := by
  simp only [primaryKey, provider_dropNode, config_dropNode]

/-! ## Refusals -/

/-- An entity is refused if its id is free and its key cannot be told. -/
theorem registerNode_eq_error_iff :
    (s.registerNode heap h).answer = .error err ↔
      ∃ id, (heap.get h).id = some id ∧ s.nodes.get? id = none ∧
        s.primaryKey (heap.get h) = .error err := by
  constructor
  · intro hr
    rcases registerNode_outcome s heap h with ho | ⟨id, hid, hfree, ⟨err', hkey, ho⟩ | ⟨key, -, ho⟩⟩
    · rw [ho] at hr
      cases hr
    · rw [ho] at hr
      cases hr
      exact ⟨id, hid, hfree, hkey⟩
    · rw [ho] at hr
      cases hr
  · rintro ⟨id, hid, hfree, hkey⟩
    simp [registerNode, hid, Table.contains, hfree, hkey]

/-- Registering is all or nothing. -/
theorem session_registerNode_of_error (hr : (s.registerNode heap h).answer = .error err) :
    (s.registerNode heap h).session = s := by
  rcases registerNode_outcome s heap h with ho | ⟨id, -, -, ⟨err', -, ho⟩ | ⟨key, -, ho⟩⟩
  · rw [ho]
  · rw [ho]
  · rw [ho] at hr
    cases hr

/-- A replacement is refused if the entity has an id and its key cannot be told. -/
theorem replaceNode_eq_error_iff :
    (s.replaceNode heap h).answer = .error err ↔
      ∃ id, (heap.get h).id = some id ∧ s.primaryKey (heap.get h) = .error err := by
  rw [replaceNode, registerNode_eq_error_iff]
  refine exists_congr fun id => and_congr_right fun hid => ?_
  rw [dropNodeOf_of_id s hid, primaryKey_dropNode, nodes_dropNode, Table.get?_erase, if_pos rfl]
  exact and_iff_right rfl

/-- A refused replacement has dropped the node, and has done nothing else. -/
theorem session_replaceNode_of_error {id : NativeId} (hid : (heap.get h).id = some id)
    (hr : (s.replaceNode heap h).answer = .error err) :
    (s.replaceNode heap h).session = s.dropNode id := by
  rw [replaceNode] at hr ⊢
  rw [session_registerNode_of_error hr, dropNodeOf_of_id s hid]

/-- Where no node is tracked there is none to drop. -/
theorem IndexCoherent.dropNode_of_free (hs : s.IndexCoherent) {id : NativeId}
    (hfree : s.nodes.get? id = none) : s.dropNode id = s := by
  have hunclaimed : s.indexedKeys.get? id = none := hs.unclaimed hfree
  have hnodes : s.nodes.erase id = s.nodes := Table.erase_of_get?_eq_none hfree
  simp only [Session.dropNode, unindexNode, hunclaimed, hnodes]

/-- Dropping a node changes the session exactly if the node is tracked. -/
theorem IndexCoherent.dropNode_eq_self_iff (hs : s.IndexCoherent) {id : NativeId} :
    s.dropNode id = s ↔ s.nodes.get? id = none := by
  refine ⟨fun heq => ?_, hs.dropNode_of_free⟩
  rw [← heq, nodes_dropNode, Table.get?_erase, if_pos rfl]

/-! ## Accepted replacements -/

/-- The property of the primary index holds the key at present. -/
def HoldsKey (s : Session) (e : Entity) (key : Key) : Prop :=
  ∃ field v, s.provider.indexField e.typeName = .ok (some field) ∧ field.read e = some v ∧
    Key.ofValue v = .ok key

/-- The entity holds the key, and of the nodes that are indexed for its type only the one with the id
may have it. -/
def EntitledTo (s : Session) (e : Entity) (id : NativeId) (key : Key) : Prop :=
  s.HoldsKey e key ∧ ∀ j, s.indexedKeys.get? j = some (key, e.typeName) → j = id

theorem primaryKey_eq_some_iff {e : Entity} {key : Key} :
    s.primaryKey e = .ok (some key) ↔ s.HoldsKey e key := by
  unfold primaryKey HoldsKey
  constructor
  · intro hkey
    split at hkey
    next => cases hkey
    next => cases hkey
    next field hfield =>
      split at hkey
      next => cases hkey
      next => cases hkey
      next v _ hread =>
        split at hkey
        next k hk =>
          cases hkey
          exact ⟨field, v, hfield, hread, hk⟩
        next => split at hkey <;> cases hkey
  · rintro ⟨field, v, hfield, hread, hk⟩
    simp only [hfield, hread]
    split
    next hnone => cases hnone
    next hnull =>
      obtain rfl := Option.some.inj hnull
      cases hk
    next v' _ hv =>
      obtain rfl := Option.some.inj hv
      rw [hk]

/-- An entity whose key can be told is admitted in the place of what is tracked under its id. -/
theorem replaceNode_of_key {id : NativeId} {key : Option Key} (hid : (heap.get h).id = some id)
    (hkey : s.primaryKey (heap.get h) = .ok key) :
    s.replaceNode heap h = ⟨(s.dropNode id).admitNode heap h id key, .ok h⟩ := by
  have hfree : (s.dropNode id).nodes.contains id = false := by
    rw [Table.contains_eq_false_iff, nodes_dropNode, Table.get?_erase, if_pos rfl]
  simp only [replaceNode, dropNodeOf_of_id s hid, registerNode, hid, hfree, primaryKey_dropNode, hkey,
    Bool.false_eq_true, if_false]

theorem replaceNode_of_noId (hid : (heap.get h).id = none) :
    s.replaceNode heap h = ⟨s, .ok h⟩ := by
  simp only [replaceNode, dropNodeOf, registerNode, hid]

/-- Once a node has been dropped, a place in the index is free if no other node has it. -/
theorem IndexCoherent.indexedAt?_dropNode_eq_none_iff (hs : s.IndexCoherent) {id : NativeId} {key : Key}
    {name : TypeName} : (s.dropNode id).indexedAt? key name = none ↔
      ∀ j, s.indexedKeys.get? j = some (key, name) → j = id := by
  rw [Option.eq_none_iff_forall_ne_some]
  constructor
  · intro hfree j hj
    obtain ⟨k, -, hk⟩ := hs.borne hj
    by_contra hne
    -- the place has one claim only, and that is of another id
    have hid : s.indexedKeys.get? id ≠ some (key, name) :=
      fun hid => hne ((hs.claimed hk).unique hj hid)
    exact hfree k (indexedAt?_dropNode.mpr ⟨hk, hid⟩)
  · intro hall k hk
    obtain ⟨hold, hid⟩ := indexedAt?_dropNode.mp hk
    obtain ⟨j, hj, -⟩ := hs.claimed hold
    exact hid (hall j hj ▸ hj)

/-- The entity is entitled to a place in the index if it is registered with the key and finds the place
free. -/
theorem IndexCoherent.entitledTo_iff (hs : s.IndexCoherent) {e : Entity} {id : NativeId}
    {key : Option Key} (hkey : s.primaryKey e = .ok key) {k : Key} :
    s.EntitledTo e id k ↔ key = some k ∧ (s.dropNode id).indexedAt? k e.typeName = none := by
  rw [EntitledTo, ← primaryKey_eq_some_iff, hkey, Except.ok.injEq,
    hs.indexedAt?_dropNode_eq_none_iff]

end Session

namespace World

open Session

/-- **A refused replacement loses the node.** In every world that a run comes to, whatever the
configuration: a replacement fails only for an entity with an id whose key cannot be told, because its
type is not known or because the session is strict and the index holds something that is no key. By
then the node that was tracked under the id has been dropped, with the index entry that it held under
whatever key and type; everything else is as it was, in its order. So nothing has changed exactly if no
node was tracked under the id. -/
theorem run_replaceNode_refused (heap : Heap) (provider : Provider) (config : Config)
    (ops : List Operation) :
    let w := (start heap provider config).run ops
    ∀ h err, (w.session.replaceNode w.heap h).answer = .error err →
      ∃ id, (w.heap.get h).id = some id ∧
        (w.session.provider.indexField (w.heap.get h).typeName = .error err ∨
          w.session.config.strictPrimaryIndex = true ∧ ∃ kind, err = .unindexableValue kind) ∧
        let v := w.after (.replaceNode h)
        (v.heap = w.heap ∧ v.session.relationships = w.session.relationships ∧
          v.session.records = w.session.records ∧ v.session.tracker = w.session.tracker) ∧
        (∀ i, v.session.nodes.get? i = if i = id then none else w.session.nodes.get? i) ∧
        (∀ key, v.session.indexed key =
          (w.session.indexed key).filter fun e => w.session.indexedKeys.get? id ≠ some (key, e.1)) ∧
        (v = w ↔ w.session.nodes.get? id = none) := by
  intro w h err hr
  have hw : w.session.IndexCoherent := indexCoherent_run heap provider config ops
  obtain ⟨id, hid, hkey⟩ := replaceNode_eq_error_iff.mp hr
  have hcause : w.session.provider.indexField (w.heap.get h).typeName = .error err ∨
      w.session.config.strictPrimaryIndex = true ∧ ∃ kind, err = .unindexableValue kind := by
    rcases primaryKey_eq_error_iff.mp hkey with htype | ⟨hstrict, _, _, kind, -, -, -, -, herr⟩
    · exact .inl htype
    · exact .inr ⟨hstrict, kind, herr⟩
  have hafter : w.after (.replaceNode h) = { w with session := w.session.dropNode id } := by
    rw [after, session_replaceNode_of_error hid hr]
  refine ⟨id, hid, hcause, ?_⟩
  rw [hafter]
  refine ⟨⟨rfl, relationships_dropNode _ _, records_dropNode _ _, tracker_dropNode _ _⟩,
    fun i => ?_, indexed_dropNode w.session id, ?_⟩
  · rw [nodes_dropNode, Table.get?_erase]
  · rw [← hw.dropNode_eq_self_iff]
    exact ⟨congrArg World.session, fun heq => congrArg (World.mk w.heap) heq⟩

/-- A session that refuses what it cannot index. -/
def strict : Config where
  strictPrimaryIndex := true

/-- An entity is given a name, which need not be a text. -/
def naming (v : Value) : Entity → Entity := fun e => e.setProperty "name" v

/-- The first person is registered as Ann. Then both persons get a number for a name. -/
def misnamed : List Operation :=
  [.edit ⟨0⟩ (naming (.string "Ann")), .registerNode ⟨0⟩, .edit ⟨0⟩ (naming (.float ⟨0⟩)),
    .edit ⟨1⟩ (naming (.float ⟨0⟩))]

/-- Neither of them can be put in the place of what is tracked now. Trying loses the first, and changes
nothing about the second, who is not tracked. -/
theorem replaceNode_misnamed :
    let w := (start twoPersons namedDomain.provider strict).run misnamed
    w.after (.replaceNode ⟨0⟩) ≠ w ∧ w.after (.replaceNode ⟨1⟩) = w := by
  intro w
  have hrefused := run_replaceNode_refused twoPersons namedDomain.provider strict misnamed
  have hfirst : w.session.nodes.get? 1 = some ⟨0⟩ := by decide +kernel
  have hsecond : w.session.nodes.get? 2 = none := by decide +kernel
  constructor
  · obtain ⟨id, hid, -, -, -, -, hsame⟩ := hrefused ⟨0⟩ (.unindexableValue .float) (by decide +kernel)
    obtain rfl : 1 = id := Option.some.inj hid
    intro heq
    rw [hsame.mp heq] at hfirst
    cases hfirst
  · obtain ⟨id, hid, -, -, -, -, hsame⟩ := hrefused ⟨1⟩ (.unindexableValue .float) (by decide +kernel)
    obtain rfl : 2 = id := Option.some.inj hid
    exact hsame.mpr hsecond

/-- Ann could be found by her id and by the name that she was registered with, until the replacement
that was refused. -/
theorem ann_lost_by_replaceNode :
    let w := (start twoPersons namedDomain.provider strict).run misnamed
    (w.session.replaceNode w.heap ⟨0⟩).answer = .error (.unindexableValue .float) ∧
    w.session.lookupNode (.integer 1) = some ⟨0⟩ ∧
    w.session.lookupNode (.string "Ann") = some ⟨0⟩ ∧
    let v := w.after (.replaceNode ⟨0⟩)
    v.session.lookupNode (.integer 1) = none ∧ v.session.lookupNode (.string "Ann") = none :=
  ⟨by decide +kernel, by decide +kernel, by decide +kernel, by decide +kernel, by decide +kernel⟩

/-- **An accepted replacement leaves no trace and disturbs nobody else.** In every world that a run
comes to, an entity without an id is accepted, and nothing changes. If an entity with an id is accepted,
it stands under the id in the register of nodes and all else there is as it was. Under each key, the entry
that the id claimed is gone, whatever node it was of, and the others keep their order; behind them comes
the entity under the key that it is entitled to, and under no other. No other id claims anything else
than before, the index is coherent, the relationship entities, the records and the heap are as they were,
and the entity is clean, with the labels that it has. -/
theorem run_replaceNode_accepted (heap : Heap) (provider : Provider) (config : Config)
    (ops : List Operation) :
    let w := (start heap provider config).run ops
    ∀ h,
      ((w.heap.get h).id = none →
        (w.session.replaceNode w.heap h).answer = .ok h ∧ w.after (.replaceNode h) = w) ∧
      ∀ id k, (w.heap.get h).id = some id → (w.session.replaceNode w.heap h).answer = .ok k →
        let v := w.after (.replaceNode h)
        let name := (w.heap.get h).typeName
        let others := fun key =>
          (w.session.indexed key).filter fun e => w.session.indexedKeys.get? id ≠ some (key, e.1)
        k = h ∧ v.heap = w.heap ∧
        (∀ i, v.session.nodes.get? i = if i = id then some h else w.session.nodes.get? i) ∧
        (∀ key, w.session.EntitledTo (w.heap.get h) id key →
          v.session.indexed key = others key ++ [(name, h)]) ∧
        (∀ key, ¬ w.session.EntitledTo (w.heap.get h) id key →
          v.session.indexed key = others key) ∧
        (∀ key n, v.session.indexedKeys.get? id = some (key, n) ↔
          n = name ∧ w.session.EntitledTo (w.heap.get h) id key) ∧
        (∀ i, i ≠ id → v.session.indexedKeys.get? i = w.session.indexedKeys.get? i) ∧
        v.session.IndexCoherent ∧
        (v.session.relationships = w.session.relationships ∧
          v.session.records = w.session.records) ∧
        v.session.isDirty v.heap h = false ∧
        (v.session.labelHistory v.heap h).previous = (v.session.labelHistory v.heap h).current := by
  intro w h
  have hw : w.session.IndexCoherent := indexCoherent_run heap provider config ops
  refine ⟨fun hid => ?_, fun id k hid hok => ?_⟩
  · rw [after, replaceNode_of_noId hid]
    exact ⟨rfl, rfl⟩
  cases hkey : w.session.primaryKey (w.heap.get h) with
  | error err =>
    rw [replaceNode_eq_error_iff.mpr ⟨id, hid, hkey⟩] at hok
    cases hok
  | ok key =>
    have hreplace := replaceNode_of_key hid hkey
    have hv : w.after (.replaceNode h) =
        ⟨w.heap, (w.session.dropNode id).admitNode w.heap h id key⟩ := by rw [after, hreplace]
    have hentitled := @IndexCoherent.entitledTo_iff _ hw (w.heap.get h) id key hkey
    have hno : (w.session.dropNode id).indexedKeys.get? id = none := by
      rw [get?_indexedKeys_dropNode, if_pos rfl]
    have hcoherent := (w.effect (.replaceNode h)).keeps_indexCoherent hw
    rw [hreplace] at hok
    rw [hv] at hcoherent ⊢
    refine ⟨(Except.ok.inj hok).symm, rfl, fun i => ?_, fun j hj => ?_, fun j hj => ?_, fun j n => ?_,
      fun i hi => ?_, hcoherent, ⟨?_, ?_⟩, ?_, ?_⟩
    · rw [nodes_admitNode, nodes_dropNode, Table.get?_insert, Table.get?_erase]
      split <;> rfl
    · rw [indexed_admitNode, if_pos (hentitled.mp hj), indexed_dropNode]
    · rw [indexed_admitNode, if_neg fun hplace => hj (hentitled.mpr hplace), indexed_dropNode]
    · rw [get?_indexedKeys_admitNode_self _ _ _ _ _ hno]
      refine and_congr_right ?_
      rintro rfl
      exact hentitled.symm
    · rw [get?_indexedKeys_admitNode_of_ne _ _ _ _ _ hi, get?_indexedKeys_dropNode, if_neg hi]
    · rw [relationships_admitNode, relationships_dropNode]
    · rw [records_admitNode, records_dropNode]
    · rw [isDirty, tracker_admitNode, Tracker.isRemembered_remember_self _ _ hid]
      rfl
    · rw [labelHistory, tracker_admitNode, Tracker.labelHistory_remember_self _ _ hid]

/-- The first of three namesakes takes another name, and is registered anew. -/
def renamed : List Operation :=
  [.registerNode ⟨0⟩, .registerNode ⟨1⟩, .registerNode ⟨2⟩, .edit ⟨0⟩ (naming (.string "Bea"))]

/-- Her old entry goes and that of the employee stays. The third, who had found the name taken, does not
move up. -/
theorem replaceNode_renamed :
    let w := (start namesakes namedDomain.provider strict).run renamed
    let v := w.after (.replaceNode ⟨0⟩)
    (w.session.replaceNode w.heap ⟨0⟩).answer = .ok ⟨0⟩ ∧
      w.session.indexed (.string "Ann") = [(⟨"Person"⟩, ⟨0⟩), (⟨"Employee"⟩, ⟨1⟩)] ∧
      v.session.indexed (.string "Ann") = [(⟨"Employee"⟩, ⟨1⟩)] ∧
      v.session.indexed (.string "Bea") = [(⟨"Person"⟩, ⟨0⟩)] ∧
      v.session.nodes.get? 3 = some ⟨2⟩ ∧ v.session.isDirty v.heap ⟨0⟩ = false := by
  intro w v
  have hid : (w.heap.get ⟨0⟩).id = some 1 := rfl
  have hok : (w.session.replaceNode w.heap ⟨0⟩).answer = .ok ⟨0⟩ := by decide +kernel
  have hann : w.session.indexed (.string "Ann") = [(⟨"Person"⟩, ⟨0⟩), (⟨"Employee"⟩, ⟨1⟩)] := by
    decide +kernel
  have hbea : w.session.indexed (.string "Bea") = [] := by decide +kernel
  have hthird : w.session.nodes.get? 3 = some ⟨2⟩ := by decide +kernel
  obtain ⟨-, haccepted⟩ := run_replaceNode_accepted namesakes namedDomain.provider strict renamed ⟨0⟩
  obtain ⟨-, -, hnodes, hentitled, hnot, -, -, -, -, hclean, -⟩ := haccepted 1 ⟨0⟩ hid hok
  have hholds : ∀ key, w.session.HoldsKey (w.heap.get ⟨0⟩) key ↔ key = .string "Bea" := by
    intro key
    rw [← primaryKey_eq_some_iff]
    have hkey : w.session.primaryKey (w.heap.get ⟨0⟩) = .ok (some (.string "Bea")) := by
      decide +kernel
    rw [hkey, Except.ok.injEq, Option.some.injEq]
    exact eq_comm
  refine ⟨hok, hann, ?_, ?_, (hnodes 3).trans hthird, hclean⟩
  · exact (hnot (.string "Ann") fun h => nomatch (hholds _).mp h.1).trans (by decide +kernel)
  · refine (hentitled (.string "Bea") ⟨(hholds _).mpr rfl, fun j hj => ?_⟩).trans ?_
    · obtain ⟨k, -, hk⟩ :=
        (indexCoherent_run namesakes namedDomain.provider strict renamed).borne hj
      have hmem : (⟨"Person"⟩, k) ∈ w.session.indexed (.string "Bea") :=
        indexedAt?_eq_some_iff.mp hk
      rw [hbea] at hmem
      cases hmem
    · decide +kernel

end World

end ObjectGraph
