import ObjectGraph.Proofs.Cascade
import ObjectGraph.Proofs.IndexCoherence

/-!
# A node and the relationship entities that depend on it

A node may be removed together with the relationship entities that start or end there, and without a
purge: their other ends stay, and so do the records that only touch the node. A relationship entity
depends on the node (`Session.DependsOn`) if it refers to the very object or to one with the id of the
node; two objects without an id are never taken for each other.

The dependents are found before the first of them is dropped, and they are dropped by the ids that they
are tracked under, whatever ids they carry. So the list holds each tracked dependent once
(`Session.exists_dependents`), and dropping one does not hide another (`Session.forget_each`).
-/

set_option autoImplicit false

namespace ObjectGraph

namespace Session

/-- The object is the entity, or has the id that the entity has. -/
def SameNode (heap : Heap) (h k : Handle) : Prop :=
  k = h ∨ (heap.get h).id ≠ none ∧ (heap.get k).id = (heap.get h).id

/-- The relationship entity starts or ends at the entity. -/
def DependsOn (s : Session) (heap : Heap) (r h : Handle) : Prop :=
  ∃ k, s.EndOf heap r k ∧ SameNode heap h k

/-- The keys of the tracked relationship entities that depend on the entity. -/
def Dependents (s : Session) (heap : Heap) (h : Handle) : Register → NativeId → Prop
  | .node, _ => False
  | .relationship, r => ∃ k, s.relationships.get? r = some k ∧ s.DependsOn heap k h

section Scan

variable {s t : Session} {heap : Heap} {h r : Handle}

theorem isSameNode_iff {stop : Option Handle} :
    isSameNode heap h stop = true ↔ ∃ k, stop = some k ∧ SameNode heap h k := by
  cases stop with
  | none => simp [isSameNode]
  | some k =>
    simp [isSameNode, SameNode, Option.isSome_iff_ne_none]

theorem dependsOn_iff {start stop : Option Handle}
    (hends : s.endpoints (heap.get r) = .ok (start, stop)) :
    s.DependsOn heap r h ↔ isSameNode heap h start = true ∨ isSameNode heap h stop = true := by
  simp only [DependsOn, endOf_iff hends, isSameNode_iff, or_and_right, exists_or]

theorem dependsOn_congr (hp : t.provider = s.provider) :
    t.DependsOn heap r h ↔ s.DependsOn heap r h := by
  simp only [DependsOn, endOf_congr hp]

/-- Where every relationship entity has ends, the scan finds the ids of the dependents, in the order of
the entries. -/
theorem exists_dependents {entries : List (NativeId × Handle)}
    (hends : ∀ e ∈ entries, ∃ start stop, s.endpoints (heap.get e.2) = .ok (start, stop)) :
    ∃ ids, s.dependents heap h entries = .ok ids ∧ ids.Sublist (entries.map Prod.fst) ∧
      ∀ i, i ∈ ids ↔ ∃ r, (i, r) ∈ entries ∧ s.DependsOn heap r h := by
  induction entries with
  | nil => exact ⟨[], rfl, .slnil, by simp⟩
  | cons e rest ih =>
    obtain ⟨id, r⟩ := e
    obtain ⟨ids, hids, hsub, hmem⟩ := ih fun e he => hends e (List.mem_cons_of_mem _ he)
    obtain ⟨start, stop, hok⟩ := hends (id, r) List.mem_cons_self
    have hdepends := dependsOn_iff (h := h) hok
    rw [← Bool.or_eq_true] at hdepends
    simp only [dependents, hok, hids]
    by_cases hin : (isSameNode heap h start || isSameNode heap h stop) = true
    · refine ⟨id :: ids, by rw [if_pos hin], hsub.cons_cons id, fun i => ?_⟩
      rw [List.mem_cons, hmem]
      constructor
      · rintro (rfl | ⟨r', hr', hd⟩)
        · exact ⟨r, List.mem_cons_self, hdepends.mpr hin⟩
        · exact ⟨r', List.mem_cons_of_mem _ hr', hd⟩
      · rintro ⟨r', hr', hd⟩
        rcases List.mem_cons.mp hr' with heq | hr'
        · exact .inl (Prod.mk.inj heq).1
        · exact .inr ⟨r', hr', hd⟩
    · refine ⟨ids, by rw [if_neg hin], hsub.cons id, fun i => ?_⟩
      rw [hmem]
      constructor
      · rintro ⟨r', hr', hd⟩
        exact ⟨r', List.mem_cons_of_mem _ hr', hd⟩
      · rintro ⟨r', hr', hd⟩
        rcases List.mem_cons.mp hr' with heq | hr'
        · obtain ⟨-, rfl⟩ := Prod.mk.inj heq
          exact absurd (hdepends.mp hd) hin
        · exact ⟨r', hr', hd⟩

end Scan

/-! ## Dropping the dependents -/

/-- What forgetting one relationship entity leaves alone, forgetting some leaves alone. -/
theorem foldl_forgetRelationship {α : Type} (part : Session → α)
    (hpart : ∀ s id, part (forgetRelationship s id) = part s) (s : Session) (ids : List NativeId) :
    part (ids.foldl forgetRelationship s) = part s := by
  induction ids generalizing s with
  | nil => rfl
  | cons id rest ih => exact (ih _).trans (hpart s id)

/-- Forgetting tracked relationship entities one after the other takes exactly those. -/
theorem forget_each {s : Session} {ids : List NativeId} (hnodup : ids.Nodup)
    (hin : ∀ id ∈ ids, s.relationships.contains id = true) :
    s.Without (fun reg i => reg = .relationship ∧ i ∈ ids) (ids.foldl forgetRelationship s) := by
  induction ids generalizing s with
  | nil => exact (Without.nothing s).congr fun reg i => by simp
  | cons id rest ih =>
    obtain ⟨hid, hrest⟩ := List.nodup_cons.mp hnodup
    have hone := forgetRelationship_without (hin id List.mem_cons_self)
    have hothers : ∀ j ∈ rest, (s.forgetRelationship id).relationships.contains j = true := by
      intro j hj
      refine hone.contains_relationships.mpr ⟨hin j (List.mem_cons_of_mem _ hj), ?_⟩
      rintro ⟨-, rfl⟩
      exact hid hj
    refine (hone.trans (ih hrest hothers)).congr fun reg i => ?_
    rw [List.mem_cons, and_or_left]
    exact Iff.rfl

/-- The dependents of an entity go, with the records that name them. -/
theorem dropDependents_without {s : Session} {heap : Heap}
    (hends : ∀ r k, s.relationships.get? r = some k →
      ∃ start stop, s.endpoints (heap.get k) = .ok (start, stop)) (h : Handle) :
    ∃ ids : List NativeId, s.dropDependents heap h = ⟨ids.foldl forgetRelationship s, .ok ()⟩ ∧
      s.Without (s.Dependents heap h) (ids.foldl forgetRelationship s) := by
  obtain ⟨ids, hids, hsub, hmem⟩ := exists_dependents (h := h) fun e he =>
    hends e.1 e.2 (Table.get?_eq_some_iff.mpr he)
  simp only [← Table.get?_eq_some_iff] at hmem
  have hin : ∀ id ∈ ids, s.relationships.contains id = true := by
    intro id hid
    obtain ⟨k, hk, -⟩ := (hmem id).mp hid
    exact Option.isSome_iff_exists.mpr ⟨k, hk⟩
  refine ⟨ids, by simp only [dropDependents, hids], ?_⟩
  refine (forget_each (hsub.nodup s.relationships.keys_nodup) hin).congr fun reg i => ?_
  cases reg with
  | node => simp [Dependents]
  | relationship => exact (and_iff_right rfl).trans (hmem i)

theorem hangsOn_dependents_iff {s : Session} {heap : Heap} {h : Handle} {q : Record} :
    q.HangsOn (s.Dependents heap h) ↔ ∃ r k, q.relationship = some r ∧
      s.relationships.get? r = some k ∧ s.DependsOn heap k h := by
  constructor
  · rintro (⟨_, ⟨⟩, -⟩ | ⟨r, ⟨k, hk, hd⟩, hr⟩)
    exact ⟨r, k, hr, hk, hd⟩
  · rintro ⟨r, k, hr, hk, hd⟩
    exact .inr ⟨r, ⟨k, hk, hd⟩, hr⟩

/-! ## Dropping the node -/

section Fields

variable (s : Session) (e : Entity)

theorem dropNodeOf_of_noId {e : Entity} (hid : e.id = none) : s.dropNodeOf e = s := by
  rw [dropNodeOf, hid]

/-- What dropping one node leaves alone, dropping the node of an entity leaves alone. -/
theorem dropNodeOf_part {α : Type} (part : Session → α)
    (hpart : ∀ s id, part (dropNode s id) = part s) : part (s.dropNodeOf e) = part s := by
  unfold dropNodeOf
  split
  · exact hpart s _
  · rfl

/-- A table that loses an id with the node loses the id of the entity with the node of the entity. -/
theorem get?_dropNodeOf {α : Type} (table : Session → Table NativeId α)
    (hdrop : ∀ s id j, (table (dropNode s id)).get? j = if j = id then none else (table s).get? j)
    (i : NativeId) :
    (table (s.dropNodeOf e)).get? i = if e.id = some i then none else (table s).get? i := by
  cases hid : e.id with
  | none => rw [dropNodeOf_of_noId s hid, if_neg nofun]
  | some id => simp only [dropNodeOf_of_id s hid, hdrop, Option.some.injEq, eq_comm]

theorem get?_nodes_dropNodeOf (i : NativeId) :
    (s.dropNodeOf e).nodes.get? i = if e.id = some i then none else s.nodes.get? i :=
  s.get?_dropNodeOf e Session.nodes (fun s id j => by rw [nodes_dropNode, Table.get?_erase]) i

theorem get?_indexedKeys_dropNodeOf (i : NativeId) :
    (s.dropNodeOf e).indexedKeys.get? i = if e.id = some i then none else s.indexedKeys.get? i :=
  s.get?_dropNodeOf e Session.indexedKeys get?_indexedKeys_dropNode i

/-- The entry that the id of the entity claims goes, and the others keep their order. -/
theorem indexed_dropNodeOf (key : Key) :
    (s.dropNodeOf e).indexed key =
      (s.indexed key).filter fun entry => e.id.bind s.indexedKeys.get? ≠ some (key, entry.1) := by
  cases hid : e.id with
  | none =>
    rw [dropNodeOf_of_noId s hid]
    exact (List.filter_eq_self.mpr fun _ _ => by simp).symm
  | some id => rw [dropNodeOf_of_id s hid, indexed_dropNode, Option.bind_some]

theorem relationships_dropNodeOf : (s.dropNodeOf e).relationships = s.relationships :=
  s.dropNodeOf_part e Session.relationships relationships_dropNode

theorem records_dropNodeOf : (s.dropNodeOf e).records = s.records :=
  s.dropNodeOf_part e Session.records records_dropNode

theorem provider_dropNodeOf : (s.dropNodeOf e).provider = s.provider :=
  s.dropNodeOf_part e Session.provider provider_dropNode

theorem tracker_dropNodeOf : (s.dropNodeOf e).tracker = s.tracker :=
  s.dropNodeOf_part e Session.tracker tracker_dropNode

end Fields

/-- With a node its dependents go, as they stood before the node went. -/
theorem removeNode_without {s : Session} {heap : Heap}
    (hends : ∀ r k, s.relationships.get? r = some k →
      ∃ start stop, s.endpoints (heap.get k) = .ok (start, stop)) (h : Handle) :
    ∃ ids : List NativeId,
      s.removeNode heap h true =
        ⟨ids.foldl forgetRelationship (s.dropNodeOf (heap.get h)), .ok ()⟩ ∧
      (s.dropNodeOf (heap.get h)).Without (s.Dependents heap h)
        (ids.foldl forgetRelationship (s.dropNodeOf (heap.get h))) := by
  have hends' : ∀ r k, (s.dropNodeOf (heap.get h)).relationships.get? r = some k →
      ∃ start stop, (s.dropNodeOf (heap.get h)).endpoints (heap.get k) = .ok (start, stop) := by
    intro r k hk
    rw [relationships_dropNodeOf] at hk
    rw [endpoints_congr (provider_dropNodeOf s _)]
    exact hends r k hk
  obtain ⟨ids, hdrop, hwithout⟩ := dropDependents_without hends' h
  refine ⟨ids, hdrop, hwithout.congr fun reg i => ?_⟩
  cases reg with
  | node => exact Iff.rfl
  | relationship =>
    simp only [Dependents, relationships_dropNodeOf, dependsOn_congr (provider_dropNodeOf s _)]

end Session

namespace World

open Session

/-- **A node goes with exactly what depends on it.** In every world that a run comes to, let the tracked
relationship entities be of relationship types of a domain. Then any entity, tracked or not, with an id
or without, can be removed with its dependents. Of the nodes only the one under its id goes, with its
index entry, and the other entries keep their order. The relationship entities that go are those that
start or end at the entity or at one with its id, whatever ids they are tracked under, and the records
that go are those that name one of them. The heap and what is remembered stay as they are, and no tracked
relationship entity depends on the entity any more. -/
theorem run_removeNode_dependents (m : Schema.Domain) (heap : Heap) (config : Config)
    (ops : List Operation) :
    let w := (start heap m.provider config).run ops
    (∀ r k, w.session.relationships.get? r = some k →
      m.typing .relationship (w.heap.get k).typeName) →
    ∀ h,
      let v := w.after (.removeNode h true)
      let id := (w.heap.get h).id
      (w.session.removeNode w.heap h true).answer = .ok () ∧ v.heap = w.heap ∧
      (∀ i, v.session.nodes.get? i = if id = some i then none else w.session.nodes.get? i) ∧
      (∀ key, v.session.indexed key = (w.session.indexed key).filter fun entry =>
        id.bind w.session.indexedKeys.get? ≠ some (key, entry.1)) ∧
      (∀ i, v.session.indexedKeys.get? i =
        if id = some i then none else w.session.indexedKeys.get? i) ∧
      v.session.IndexCoherent ∧
      (∀ r k, v.session.relationships.get? r = some k ↔
        w.session.relationships.get? r = some k ∧ ¬ w.session.DependsOn w.heap k h) ∧
      (∀ q, q ∈ v.session.records ↔ q ∈ w.session.records ∧
        ¬ ∃ r k, q.relationship = some r ∧ w.session.relationships.get? r = some k ∧
          w.session.DependsOn w.heap k h) ∧
      v.session.tracker = w.session.tracker ∧
      ∀ r k, v.session.relationships.get? r = some k → ¬ v.session.DependsOn v.heap k h := by
  intro w htyped h v id
  have hw : w.session.IndexCoherent := indexCoherent_run heap m.provider config ops
  have hprovider : w.session.provider = m.provider := provider_run (start heap m.provider config) ops
  obtain ⟨ids, hremove, hwithout⟩ :=
    removeNode_without (fun r k hk => endpoints_of_typing hprovider (htyped r k hk)) h
  have hv : v = ⟨w.heap, ids.foldl forgetRelationship (w.session.dropNodeOf (w.heap.get h))⟩ := by
    show World.mk w.heap (w.session.removeNode w.heap h true).session = _
    rw [hremove]
  -- what forgetting a relationship entity leaves alone is as the dropped node has left it
  have hpart : ∀ {α : Type} (part : Session → α), (∀ s r, part (forgetRelationship s r) = part s) →
      part v.session = part (w.session.dropNodeOf (w.heap.get h)) := by
    intro α part hpart
    rw [hv]
    exact foldl_forgetRelationship part hpart _ ids
  have hheap : v.heap = w.heap := by rw [hv]
  have hcoherent : v.session.IndexCoherent := (w.effect (.removeNode h true)).keeps_indexCoherent hw
  have hrelationships : ∀ r k, v.session.relationships.get? r = some k ↔
      w.session.relationships.get? r = some k ∧ ¬ w.session.DependsOn w.heap k h := by
    intro r k
    rw [hv, hwithout.get?_relationships, relationships_dropNodeOf]
    refine and_congr_right fun hk => not_congr ⟨?_, fun hd => ⟨k, hk, hd⟩⟩
    rintro ⟨k', hk', hd⟩
    obtain rfl := Option.some.inj (hk.symm.trans hk')
    exact hd
  refine ⟨by rw [hremove], hheap, fun i => ?_, fun key => ?_, fun i => ?_, hcoherent, hrelationships,
    fun q => ?_, ?_, fun r k hk => ?_⟩
  · rw [hpart Session.nodes nodes_forgetRelationship, get?_nodes_dropNodeOf]
  · rw [hpart (fun s => s.indexed key) fun s r => by simp [indexed]]
    exact indexed_dropNodeOf w.session _ key
  · rw [hpart Session.indexedKeys indexedKeys_forgetRelationship, get?_indexedKeys_dropNodeOf]
  · rw [hv, hwithout.mem_records, records_dropNodeOf, hangsOn_dependents_iff]
  · rw [hpart Session.tracker tracker_forgetRelationship]
    exact dropNodeOf_part _ _ Session.tracker tracker_dropNode
  · have hvprovider : v.session.provider = w.session.provider :=
      (hpart Session.provider provider_forgetRelationship).trans (provider_dropNodeOf _ _)
    rw [hheap, dependsOn_congr hvprovider]
    exact ((hrelationships r k).mp hk).2

/-- The two acquainted persons, the first of them once more as another object, and a third, whom the
second knows and the first likes. The second acquaintance is tracked under an id that it does not carry,
and the liking is a record and no relationship entity. -/
def knowingAThird : List Operation :=
  acquainted ++ [.create { typeName := ⟨"Person"⟩, id := some 1 },
    .create { typeName := ⟨"Person"⟩, id := some 3 }, .registerNode ⟨4⟩,
    .create { typeName := ⟨"Knows"⟩, id := some 6,
              references := .ofList [("from", ⟨1⟩), ("to", ⟨4⟩)] },
    .registerRelationship ⟨5⟩ 7, .addRecord ⟨2, 3, ⟨"KNOWS"⟩, some 7⟩,
    .addRecord ⟨1, 3, ⟨"LIKES"⟩, none⟩]

/-- By the other object of the first person that person goes, and the acquaintance with the second. The
other persons stay, the other acquaintance, and the record of the liking. -/
theorem removeNode_twin :
    let w := (start twoPersons acquaintance.provider .standard).run knowingAThird
    let v := w.after (.removeNode ⟨3⟩ true)
    v.session.nodes.get? 1 = none ∧ v.session.nodes.get? 2 = some ⟨1⟩ ∧
      v.session.nodes.get? 3 = some ⟨4⟩ ∧ v.session.relationships.get? 5 = none ∧
      v.session.relationships.get? 7 = some ⟨5⟩ ∧ knows ∉ v.session.records ∧
      ⟨2, 3, ⟨"KNOWS"⟩, some 7⟩ ∈ v.session.records ∧
      ⟨1, 3, ⟨"LIKES"⟩, none⟩ ∈ v.session.records := by
  intro w v
  have hfirst : w.session.relationships.get? 5 = some ⟨2⟩ := rfl
  have hsecond : w.session.relationships.get? 7 = some ⟨5⟩ := rfl
  have htyped : ∀ r k, w.session.relationships.get? r = some k →
      acquaintance.typing .relationship (w.heap.get k).typeName := by
    intro r k hk
    have hentry : (r, k) ∈ [((5 : NativeId), Handle.mk 2), (7, ⟨5⟩)] := Table.get?_eq_some_iff.mp hk
    simp only [List.mem_cons, List.not_mem_nil, or_false, Prod.mk.injEq] at hentry
    rcases hentry with ⟨-, rfl⟩ | ⟨-, rfl⟩ <;> exact knows_typing
  obtain ⟨-, -, hnodes, -, -, -, hrelationships, hrecords, -, -⟩ :=
    run_removeNode_dependents acquaintance twoPersons .standard knowingAThird htyped ⟨3⟩
  have hends : w.session.endpoints (w.heap.get ⟨2⟩) = .ok (some ⟨0⟩, some ⟨1⟩) := rfl
  have hends' : w.session.endpoints (w.heap.get ⟨5⟩) = .ok (some ⟨1⟩, some ⟨4⟩) := rfl
  have hdepends : w.session.DependsOn w.heap ⟨2⟩ ⟨3⟩ := (dependsOn_iff hends).mpr (by decide)
  have hstays : ¬ w.session.DependsOn w.heap ⟨5⟩ ⟨3⟩ :=
    fun hd => absurd ((dependsOn_iff hends').mp hd) (by decide)
  refine ⟨(hnodes 1).trans rfl, (hnodes 2).trans rfl, (hnodes 3).trans rfl, ?_,
    (hrelationships 7 ⟨5⟩).mpr ⟨hsecond, hstays⟩, fun hq => ?_, (hrecords _).mpr ⟨by decide, ?_⟩,
    (hrecords _).mpr ⟨by decide, ?_⟩⟩
  · refine Option.eq_none_iff_forall_ne_some.mpr fun k hk => ?_
    obtain ⟨hold, hno⟩ := (hrelationships 5 k).mp hk
    obtain rfl := Option.some.inj (hfirst.symm.trans hold)
    exact hno hdepends
  · exact ((hrecords knows).mp hq).2 ⟨5, ⟨2⟩, rfl, hfirst, hdepends⟩
  · rintro ⟨r, k, ⟨⟩, hk, hd⟩
    obtain rfl := Option.some.inj (hsecond.symm.trans hk)
    exact hstays hd
  · rintro ⟨r, k, ⟨⟩, -⟩

end World

end ObjectGraph
