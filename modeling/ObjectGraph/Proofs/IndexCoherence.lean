import ObjectGraph.Proofs.Index
import ObjectGraph.Session.Query
import Mathlib.Logic.ExistsUnique

/-!
# The index and the nodes agree

`IndexCoherent` says that the three registers that know of an indexed node agree. Every operation
keeps it, whatever it is called with and however it ends, since entities take no part in it: the key
and the type of an entry are those that the node had when it was registered, and the entry is found
again through `indexedKeys` alone. So no lookup by key finds a node that is not tracked, and a session
without nodes has nothing in its index.
-/

set_option autoImplicit false

namespace ObjectGraph.Session

/-- The registers that know of indexed nodes agree. -/
structure IndexCoherent (s : Session) : Prop where
  /-- What an id claims is there: the node is tracked, and the entry holds the same object. -/
  borne : ∀ {i : NativeId} {key : Key} {name : TypeName},
    s.indexedKeys.get? i = some (key, name) →
      ∃ h, s.nodes.get? i = some h ∧ s.indexedAt? key name = some h
  /-- Each entry is claimed by exactly one id. -/
  claimed : ∀ {key : Key} {name : TypeName} {h : Handle},
    s.indexedAt? key name = some h → ∃! i, s.indexedKeys.get? i = some (key, name)
  /-- No key is kept without entries. -/
  inhabited : ∀ {key : Key} {byType : Table TypeName Handle},
    s.primaryIndex.get? key = some byType → byType.isEmpty = false

namespace IndexCoherent

/-- Only three registers matter. -/
theorem congr {s t : Session} (hs : s.IndexCoherent) (hn : t.nodes = s.nodes)
    (hp : t.primaryIndex = s.primaryIndex) (hk : t.indexedKeys = s.indexedKeys) :
    t.IndexCoherent := by
  have hentry : t.indexedAt? = s.indexedAt? := by
    funext key name
    rw [indexedAt?, indexedAt?, hp]
  refine ⟨fun h => ?_, fun h => ?_, fun h => ?_⟩
  · rw [hk] at h
    rw [hn, hentry]
    exact hs.borne h
  · rw [hentry] at h
    rw [hk]
    exact hs.claimed h
  · rw [hp] at h
    exact hs.inhabited h

theorem fresh (provider : Schema.Provider) (config : Config) :
    (Session.fresh provider config).IndexCoherent := ⟨nofun, nofun, nofun⟩

/-- An indexed node is tracked. -/
theorem tracked {s : Session} (hs : s.IndexCoherent) {key : Key} {name : TypeName} {h : Handle}
    (he : s.indexedAt? key name = some h) : ∃ i, s.nodes.get? i = some h := by
  obtain ⟨i, hi, -⟩ := hs.claimed he
  obtain ⟨k, hk, hek⟩ := hs.borne hi
  rw [he, Option.some.injEq] at hek
  exact ⟨i, hek ▸ hk⟩

/-! ## Losses -/

theorem inhabited_dropNode {s : Session} (hs : s.IndexCoherent) {id : NativeId} {key : Key}
    {byType : Table TypeName Handle} (h : (s.dropNode id).primaryIndex.get? key = some byType) :
    byType.isEmpty = false := by
  cases hc : s.indexedKeys.get? id with
  | none =>
    rw [primaryIndex_dropNode_of_none hc] at h
    exact hs.inhabited h
  | some claim =>
    obtain ⟨k, name⟩ := claim
    rw [get?_primaryIndex_dropNode_of_some hc] at h
    split at h
    · obtain ⟨bucket, -, hrest⟩ := Option.bind_eq_some_iff.mp h
      split at hrest
      · cases hrest
      next hempty =>
        obtain rfl := Option.some.inj hrest
        exact Bool.not_eq_true _ ▸ hempty
    · exact hs.inhabited h

theorem dropNode {s : Session} (hs : s.IndexCoherent) (id : NativeId) :
    (s.dropNode id).IndexCoherent := by
  refine ⟨fun {i key name} h => ?_, fun {key name k} h => ?_, hs.inhabited_dropNode⟩
  · rw [get?_indexedKeys_dropNode] at h
    split at h
    · cases h
    next hi =>
      obtain ⟨k, hk, he⟩ := hs.borne h
      refine ⟨k, by rw [nodes_dropNode, Table.get?_erase, if_neg hi, hk],
        indexedAt?_dropNode.mpr ⟨he, fun hid => hi ?_⟩⟩
      -- only `i` claims this entry, so `id` cannot
      exact (hs.claimed he).unique h hid
  · obtain ⟨he, hid⟩ := indexedAt?_dropNode.mp h
    obtain ⟨i, hi, hone⟩ := hs.claimed he
    have hne : i ≠ id := fun hii => hid (hii ▸ hi)
    refine ⟨i, (get?_indexedKeys_dropNode s id i).trans ((if_neg hne).trans hi), fun j hj => ?_⟩
    have hj : (s.dropNode id).indexedKeys.get? j = some (key, name) := hj
    rw [get?_indexedKeys_dropNode] at hj
    split at hj
    · cases hj
    · exact hone j hj

theorem of_loses {s t : Session} (hl : s.Loses t) (hs : s.IndexCoherent) : t.IndexCoherent := by
  cases hl with
  | node id => exact hs.dropNode id
  | purgedNode id => exact (hs.dropNode id).congr rfl rfl rfl
  | relationship id => exact hs.congr (by simp) (by simp) (by simp)
  | record r => exact hs.congr rfl rfl rfl

/-! ## Admission -/

/-- A node that is not tracked claims nothing. -/
theorem unclaimed {s : Session} (hs : s.IndexCoherent) {id : NativeId}
    (hfree : s.nodes.get? id = none) : s.indexedKeys.get? id = none := by
  cases hc : s.indexedKeys.get? id with
  | none => rfl
  | some claim =>
    obtain ⟨k, hk, -⟩ := hs.borne hc
    rw [hfree] at hk
    cases hk

/-- A node that claims nothing yet gets an entry where the place is free, and none where it is
taken. -/
theorem indexNode {s : Session} (hs : s.IndexCoherent) {id : NativeId} {h : Handle}
    (hin : s.nodes.get? id = some h) (hno : s.indexedKeys.get? id = none) (name : TypeName)
    (key : Key) : (s.indexNode id name key h).IndexCoherent := by
  cases he : s.indexedAt? key name with
  | some k =>
    rw [indexNode_of_taken he]
    exact hs
  | none =>
    refine ⟨fun {i j n} hi => ?_, fun {j n k} hk => ?_, fun {j byType} hb => ?_⟩
    · rw [get?_indexedKeys_indexNode_of_free he] at hi
      rw [nodes_indexNode]
      split at hi
      next hii =>
        obtain ⟨rfl, rfl⟩ := Prod.mk.inj (Option.some.inj hi)
        exact ⟨h, hii ▸ hin, (indexedAt?_indexNode_of_free he).mpr (.inr ⟨rfl, rfl, rfl⟩)⟩
      next =>
        obtain ⟨k, hk, hek⟩ := hs.borne hi
        exact ⟨k, hk, (indexedAt?_indexNode_of_free he).mpr (.inl hek)⟩
    · simp only [get?_indexedKeys_indexNode_of_free he]
      rcases (indexedAt?_indexNode_of_free he).mp hk with hold | ⟨rfl, rfl, rfl⟩
      · -- an old entry is not the new one, whose place was free
        have hnew : (key, name) ≠ (j, n) := by
          rintro ⟨⟩
          rw [he] at hold
          cases hold
        obtain ⟨i, hi, hone⟩ := hs.claimed hold
        have hii : i ≠ id := by
          rintro rfl
          rw [hno] at hi
          cases hi
        refine ⟨i, (if_neg hii).trans hi, fun i' hi' => ?_⟩
        dsimp only at hi'
        split at hi'
        · exact absurd (Option.some.inj hi') hnew
        · exact hone i' hi'
      · refine ⟨id, if_pos rfl, fun i' hi' => ?_⟩
        dsimp only at hi'
        split at hi'
        next hii => exact hii
        next =>
          obtain ⟨k', -, hk'⟩ := hs.borne hi'
          rw [he] at hk'
          cases hk'
    · rw [indexNode_of_free he, Table.get?_insert] at hb
      split at hb
      · obtain rfl := Option.some.inj hb
        refine Bool.eq_false_iff.mpr fun hempty => ?_
        have hname := Table.isEmpty_iff.mp hempty name
        rw [Table.get?_insert, if_pos rfl] at hname
        cases hname
      · exact hs.inhabited hb

theorem admitNode {s : Session} (hs : s.IndexCoherent) {id : NativeId}
    (hfree : s.nodes.get? id = none) (heap : Heap) (h : Handle) (key : Option Key) :
    (s.admitNode heap h id key).IndexCoherent := by
  let tracked : Session := { s with
    nodes := s.nodes.insert id h
    tracker := s.tracker.remember heap (heap.get h) }
  have hno := hs.unclaimed hfree
  have htracked : tracked.IndexCoherent := by
    refine ⟨fun {i _ _} hi => ?_, hs.claimed, hs.inhabited⟩
    obtain ⟨k, hk, he⟩ := hs.borne hi
    have hii : i ≠ id := by
      rintro rfl
      rw [hno] at hi
      cases hi
    exact ⟨k, (Table.get?_insert _ _ _ _).trans ((if_neg hii).trans hk), he⟩
  cases key with
  | none => exact htracked
  | some key =>
    exact htracked.indexNode ((Table.get?_insert _ _ _ _).trans (if_pos rfl)) hno _ key

/-! ## What coherence gives -/

/-- A key finds tracked nodes only. -/
theorem tracked_of_lookupNode {s : Session} (hs : s.IndexCoherent) {key : Key} {h : Handle}
    (hl : s.lookupNode key = some h) : ∃ i, s.nodes.get? i = some h := by
  rcases Option.or_eq_some_iff.mp hl with hid | ⟨-, hfirst⟩
  · obtain ⟨i, -, hi⟩ := Option.bind_eq_some_iff.mp hid
    exact ⟨i, hi⟩
  · rw [firstIndexed_eq, List.head?_map] at hfirst
    obtain ⟨⟨name, k⟩, he, rfl⟩ := Option.map_eq_some_iff.mp hfirst
    exact hs.tracked (indexedAt?_eq_some_iff.mpr (List.mem_of_head? he))

/-- What passes for a type is one of the entries gone through. -/
theorem mem_of_firstAssignable {s : Session} {target : TypeName} {h : Handle} :
    ∀ {entries : List (TypeName × Handle)}, s.firstAssignable target entries = .ok (some h) →
      ∃ name, (name, h) ∈ entries
  | [], hl => by cases hl
  | (name, k) :: rest, hl => by
    simp only [firstAssignable] at hl
    split at hl
    · cases hl
    · cases hl
      exact ⟨name, List.mem_cons_self⟩
    · obtain ⟨n, hn⟩ := mem_of_firstAssignable hl
      exact ⟨n, List.mem_cons_of_mem _ hn⟩

/-- A key and a type find tracked nodes only. -/
theorem tracked_of_lookupNodeByKey {s : Session} (hs : s.IndexCoherent) {target : TypeName}
    {key : Key} {h : Handle} (hl : s.lookupNodeByKey target key = .ok (some h)) :
    ∃ i, s.nodes.get? i = some h := by
  rw [lookupNodeByKey_eq] at hl
  obtain ⟨name, hmem⟩ := mem_of_firstAssignable hl
  exact hs.tracked (indexedAt?_eq_some_iff.mpr hmem)

/-- Without nodes there is no index. -/
theorem primaryIndex_isEmpty {s : Session} (hs : s.IndexCoherent)
    (hn : ∀ i, s.nodes.get? i = none) : s.primaryIndex.isEmpty = true := by
  refine Table.isEmpty_iff.mpr fun key => ?_
  cases hb : s.primaryIndex.get? key with
  | none => rfl
  | some byType =>
    have hsome : ¬ ∀ name, byType.get? name = none := fun hall => by
      have := hs.inhabited hb
      rw [Table.isEmpty_iff.mpr hall] at this
      cases this
    obtain ⟨name, hname⟩ := Classical.not_forall.mp hsome
    obtain ⟨h, hh⟩ := Option.ne_none_iff_exists'.mp hname
    have he : s.indexedAt? key name = some h := Option.bind_eq_some_iff.mpr ⟨byType, hb, hh⟩
    obtain ⟨i, hi⟩ := hs.tracked he
    rw [hn i] at hi
    cases hi

theorem isEmpty_iff {s : Session} (hs : s.IndexCoherent) :
    s.isEmpty = true ↔ (∀ i, s.nodes.get? i = none) ∧ (∀ r, s.relationships.get? r = none) ∧
      ∀ q, q ∉ s.records := by
  have hrecords : s.records.isEmpty = true ↔ ∀ q, q ∉ s.records :=
    List.isEmpty_iff.trans List.eq_nil_iff_forall_not_mem
  simp only [isEmpty, Bool.and_eq_true, Table.isEmpty_iff, hrecords]
  constructor
  · rintro ⟨⟨⟨hn, -⟩, hr⟩, hq⟩
    exact ⟨hn, hr, hq⟩
  · rintro ⟨hn, hr, hq⟩
    exact ⟨⟨⟨hn, Table.isEmpty_iff.mp (hs.primaryIndex_isEmpty hn)⟩, hr⟩, hq⟩

end IndexCoherent

end ObjectGraph.Session

namespace ObjectGraph.World

open Session

/-! ## Every run -/

theorem Effect.keeps_indexCoherent {w v : World} {op : Operation} (he : w.Effect op v)
    (hw : w.session.IndexCoherent) : v.session.IndexCoherent := by
  cases he with
  | created | edited => exact hw
  | shrunk hs => exact hs.keeps .of_loses hw
  | reset h hp => exact (shrinks_of_purge hp).keeps .of_loses hw
  | admittedNode hop hid hfree hkey =>
    refine IndexCoherent.admitNode ?_ hfree w.heap _ _
    rcases hop with ⟨-, rfl⟩ | ⟨-, rfl⟩
    · exact hw
    · exact hw.dropNode _
  | admittedRelationship hop =>
    rcases hop with ⟨-, rfl, -⟩ | ⟨-, rfl⟩ <;> exact hw.congr rfl rfl rfl
  | recorded => exact hw.congr rfl rfl rfl
  | cleared => exact .fresh _ _
  | tracked => exact hw.congr rfl rfl rfl

theorem indexCoherent_run (heap : Heap) (provider : Schema.Provider) (config : Config)
    (ops : List Operation) : ((start heap provider config).run ops).session.IndexCoherent :=
  run_keeps (P := fun w => w.session.IndexCoherent)
    (fun {w} op hw => (w.effect op).keeps_indexCoherent hw) (.fresh provider config) ops

/-- **The primary index is coherent in every world that a run comes to**, whatever the operations of
the run are given, whatever they answer, and however entities change between them. So a key finds
tracked nodes only, and a session is empty as soon as it tracks no node, no relationship entity and no
record. -/
theorem run_indexCoherent (heap : Heap) (provider : Schema.Provider) (config : Config)
    (ops : List Operation) :
    let s := ((start heap provider config).run ops).session
    s.IndexCoherent ∧
      (∀ key h, s.lookupNode key = some h → ∃ i, s.nodes.get? i = some h) ∧
      (∀ target key h, s.lookupNodeByKey target key = .ok (some h) →
        ∃ i, s.nodes.get? i = some h) ∧
      (s.isEmpty = true ↔ (∀ i, s.nodes.get? i = none) ∧
        (∀ r, s.relationships.get? r = none) ∧ ∀ q, q ∉ s.records) := by
  intro s
  have hs : s.IndexCoherent := indexCoherent_run heap provider config ops
  exact ⟨hs, fun _ _ => hs.tracked_of_lookupNode, fun _ _ _ => hs.tracked_of_lookupNodeByKey,
    hs.isEmpty_iff⟩

end ObjectGraph.World
