import ObjectGraph.Proofs.Index

/-!
# A session without some keys

`Without s gone t` says in full what becomes of a session when the entities under some keys go: each
register loses exactly those ids, the index loses exactly the entries that those nodes claim and keeps
the order of the others, and the records lose exactly those that hang on one of the keys. What goes in
two parts goes as a whole (`Without.trans`), and a purged node and a forgotten relationship entity are
the two single parts.
-/

set_option autoImplicit false

namespace ObjectGraph

open Session

/-- The record touches a node or names a relationship entity among the keys. -/
def Record.HangsOn (q : Record) (gone : Register → NativeId → Prop) : Prop :=
  (∃ n, gone .node n ∧ q.touches n = true) ∨ ∃ r, gone .relationship r ∧ q.relationship = some r

namespace Session

/-- The second session is the first without the entities under some keys. -/
structure Without (s : Session) (gone : Register → NativeId → Prop) (t : Session) : Prop where
  get?_register : ∀ {reg : Register} {i : NativeId} {k : Handle},
    (t.register reg).get? i = some k ↔ (s.register reg).get? i = some k ∧ ¬ gone reg i
  mem_records : ∀ {q : Record}, q ∈ t.records ↔ q ∈ s.records ∧ ¬ q.HangsOn gone
  get?_indexedKeys : ∀ {i : NativeId} {claim : Key × TypeName},
    t.indexedKeys.get? i = some claim ↔ s.indexedKeys.get? i = some claim ∧ ¬ gone .node i
  mem_indexed : ∀ {key : Key} {e : TypeName × Handle},
    e ∈ t.indexed key ↔
      e ∈ s.indexed key ∧ ¬ ∃ i, gone .node i ∧ s.indexedKeys.get? i = some (key, e.1)
  indexed_sublist : ∀ key : Key, (t.indexed key).Sublist (s.indexed key)
  provider : t.provider = s.provider
  config : t.config = s.config
  tracker : t.tracker = s.tracker

/-- One key alone. -/
def only (reg : Register) (id : NativeId) : Register → NativeId → Prop :=
  fun reg' id' => reg' = reg ∧ id' = id

namespace Without

variable {s t u : Session} {gone gone' : Register → NativeId → Prop}

theorem congr (h : s.Without gone t) (hiff : ∀ reg i, gone reg i ↔ gone' reg i) :
    s.Without gone' t := by
  have heq : gone = gone' := funext fun reg => funext fun i => propext (hiff reg i)
  exact heq ▸ h

theorem nothing (s : Session) : s.Without (fun _ _ => False) s where
  get?_register := by simp
  mem_records := by simp [Record.HangsOn]
  get?_indexedKeys := by simp
  mem_indexed := by simp
  indexed_sublist _ := List.Sublist.refl _
  provider := rfl
  config := rfl
  tracker := rfl

theorem trans (h : s.Without gone t) (h' : t.Without gone' u) :
    s.Without (fun reg i => gone reg i ∨ gone' reg i) u where
  get?_register := by
    intro reg i k
    rw [h'.get?_register, h.get?_register, and_assoc, not_or]
  mem_records := by
    intro q
    have hor : q.HangsOn (fun reg i => gone reg i ∨ gone' reg i) ↔ q.HangsOn gone ∨ q.HangsOn gone' := by
      constructor
      · rintro (⟨n, hn | hn, ht⟩ | ⟨r, hr | hr, hq⟩)
        · exact .inl (.inl ⟨n, hn, ht⟩)
        · exact .inr (.inl ⟨n, hn, ht⟩)
        · exact .inl (.inr ⟨r, hr, hq⟩)
        · exact .inr (.inr ⟨r, hr, hq⟩)
      · rintro ((⟨n, hn, ht⟩ | ⟨r, hr, hq⟩) | (⟨n, hn, ht⟩ | ⟨r, hr, hq⟩))
        · exact .inl ⟨n, .inl hn, ht⟩
        · exact .inr ⟨r, .inl hr, hq⟩
        · exact .inl ⟨n, .inr hn, ht⟩
        · exact .inr ⟨r, .inr hr, hq⟩
    rw [h'.mem_records, h.mem_records, hor, and_assoc, not_or]
  get?_indexedKeys := by
    intro i claim
    rw [h'.get?_indexedKeys, h.get?_indexedKeys, and_assoc, not_or]
  mem_indexed := by
    intro key e
    rw [h'.mem_indexed, h.mem_indexed, and_assoc]
    refine and_congr_right fun _ => ⟨?_, ?_⟩
    · rintro ⟨hno, hno'⟩ ⟨i, hi, hclaim⟩
      by_cases hg : gone .node i
      · exact hno ⟨i, hg, hclaim⟩
      · exact hno' ⟨i, hi.resolve_left hg, h.get?_indexedKeys.mpr ⟨hclaim, hg⟩⟩
    · intro hno
      refine ⟨?_, ?_⟩
      · rintro ⟨i, hi, hclaim⟩
        exact hno ⟨i, .inl hi, hclaim⟩
      · rintro ⟨i, hi, hclaim⟩
        exact hno ⟨i, .inr hi, (h.get?_indexedKeys.mp hclaim).1⟩
  indexed_sublist key := (h'.indexed_sublist key).trans (h.indexed_sublist key)
  provider := h'.provider.trans h.provider
  config := h'.config.trans h.config
  tracker := h'.tracker.trans h.tracker

/-- A key that stays is tracked as before. -/
theorem contains_register (h : s.Without gone t) {reg : Register} {i : NativeId} :
    (t.register reg).contains i = true ↔ (s.register reg).contains i = true ∧ ¬ gone reg i := by
  simp only [Table.contains, Option.isSome_iff_exists, h.get?_register, exists_and_right]

theorem get?_relationships (h : s.Without gone t) {r : NativeId} {k : Handle} :
    t.relationships.get? r = some k ↔ s.relationships.get? r = some k ∧ ¬ gone .relationship r := by
  have hreg : (t.register .relationship).get? r = some k ↔ _ := h.get?_register
  exact hreg

theorem contains_nodes (h : s.Without gone t) {i : NativeId} :
    t.nodes.contains i = true ↔ s.nodes.contains i = true ∧ ¬ gone .node i := by
  have hreg : (t.register .node).contains i = true ↔ _ := h.contains_register
  exact hreg

theorem contains_relationships (h : s.Without gone t) {r : NativeId} :
    t.relationships.contains r = true ↔
      s.relationships.contains r = true ∧ ¬ gone .relationship r := by
  have hreg : (t.register .relationship).contains r = true ↔ _ := h.contains_register
  exact hreg

end Without

theorem hangsOn_only_node {q : Record} {id : NativeId} :
    q.HangsOn (only .node id) ↔ q.touches id = true := by
  constructor
  · rintro (⟨n, ⟨-, rfl⟩, ht⟩ | ⟨r, ⟨⟨⟩, -⟩, -⟩)
    exact ht
  · intro ht
    exact .inl ⟨id, ⟨rfl, rfl⟩, ht⟩

theorem hangsOn_only_relationship {q : Record} {id : NativeId} :
    q.HangsOn (only .relationship id) ↔ q.relationship = some id := by
  constructor
  · rintro (⟨n, ⟨⟨⟩, -⟩, -⟩ | ⟨r, ⟨-, rfl⟩, hq⟩)
    exact hq
  · intro hq
    exact .inr ⟨id, ⟨rfl, rfl⟩, hq⟩

theorem purgeNode_without (s : Session) (id : NativeId) :
    s.Without (only .node id) (s.purgeNode id).1 where
  get?_register := by
    intro reg i k
    cases reg with
    | node =>
      show (s.dropNode id).nodes.get? i = some k ↔ s.nodes.get? i = some k ∧ _
      rw [nodes_dropNode, Table.get?_erase]
      by_cases hi : i = id <;> simp [only, hi]
    | relationship =>
      show (s.dropNode id).relationships.get? i = some k ↔ s.relationships.get? i = some k ∧ _
      rw [relationships_dropNode]
      simp [only]
  mem_records := by
    intro q
    show q ∈ s.records.filter (fun r => !r.touches id) ↔ _
    rw [RecordSet.mem_filter, hangsOn_only_node, Bool.not_eq_true', Bool.not_eq_true]
  get?_indexedKeys := by
    intro i claim
    show (s.dropNode id).indexedKeys.get? i = some claim ↔ _
    rw [get?_indexedKeys_dropNode]
    by_cases hi : i = id <;> simp [only, hi]
  mem_indexed := by
    intro key e
    show e ∈ (s.dropNode id).indexed key ↔ _
    rw [indexed_dropNode, List.mem_filter]
    simp [only]
  indexed_sublist key := by
    show ((s.dropNode id).indexed key).Sublist _
    rw [indexed_dropNode]
    exact List.filter_sublist
  provider := provider_dropNode s id
  config := config_dropNode s id
  tracker := tracker_dropNode s id

theorem forgetRelationship_without {s : Session} {id : NativeId}
    (hin : s.relationships.contains id = true) :
    s.Without (only .relationship id) (s.forgetRelationship id) where
  get?_register := by
    intro reg i k
    cases reg with
    | node =>
      show (s.forgetRelationship id).nodes.get? i = some k ↔ s.nodes.get? i = some k ∧ _
      rw [nodes_forgetRelationship]
      simp [only]
    | relationship =>
      show (s.forgetRelationship id).relationships.get? i = some k ↔
        s.relationships.get? i = some k ∧ _
      rw [get?_relationships_forgetRelationship]
      by_cases hi : i = id <;> simp [only, hi]
  mem_records := by
    intro q
    rw [mem_records_forgetRelationship, hangsOn_only_relationship]
    simp [hin, Record.names]
  get?_indexedKeys := by simp [only]
  mem_indexed := by simp [only, indexed]
  indexed_sublist key := by simp [indexed]
  provider := provider_forgetRelationship s id
  config := config_forgetRelationship s id
  tracker := tracker_forgetRelationship s id

end Session

end ObjectGraph
