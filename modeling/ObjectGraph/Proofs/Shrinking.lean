import ObjectGraph.Proofs.PurgeStep
import ObjectGraph.Session.Removal
import Mathlib.Logic.Relation

/-!
# Sessions that shrink

Whatever removes something from a session is made of four elementary losses: a node goes, a node goes
with the records that touch it, a relationship entity goes with the records that name it, a record
goes. `Session.Shrinks` is any number of them one after the other, and every removing operation
shrinks the session it is given, whether it succeeds or is cut short by an error. So what each loss
keeps, every removal keeps (`Shrinks.keeps`), and a removal adds nothing to any register.
-/

set_option autoImplicit false

namespace ObjectGraph.Session

/-- One thing less. -/
inductive Loses (s : Session) : Session → Prop
  | node (id : NativeId) : Loses s (s.dropNode id)
  | purgedNode (id : NativeId) : Loses s (s.purgeNode id).1
  | relationship (id : NativeId) : Loses s (s.forgetRelationship id)
  | record (r : Record) : Loses s (s.removeRecord r).1

/-- Any number of things less. -/
def Shrinks : Session → Session → Prop := Relation.ReflTransGen Loses

namespace Shrinks

theorem refl (s : Session) : s.Shrinks s := Relation.ReflTransGen.refl

theorem of_loses {s t : Session} (h : s.Loses t) : s.Shrinks t := Relation.ReflTransGen.single h

theorem trans {s t u : Session} (h : s.Shrinks t) (h' : t.Shrinks u) : s.Shrinks u :=
  Relation.ReflTransGen.trans h h'

/-- What each loss keeps, a removal keeps. -/
theorem keeps {P : Session → Prop} (step : ∀ {s t}, s.Loses t → P s → P t) {s t : Session}
    (h : s.Shrinks t) (hs : P s) : P t := by
  induction h with
  | refl => exact hs
  | tail _ hl ih => exact step hl ih

end Shrinks

/-! ## What a loss leaves alone -/

section Fields

variable (s : Session) (id : NativeId)

@[simp] theorem nodes_dropNode : (s.dropNode id).nodes = s.nodes.erase id := by
  unfold dropNode unindexNode
  split <;> rfl

@[simp] theorem records_dropNode : (s.dropNode id).records = s.records := by
  unfold dropNode unindexNode
  split <;> rfl

@[simp] theorem provider_dropNode : (s.dropNode id).provider = s.provider := by
  unfold dropNode unindexNode
  split <;> rfl

@[simp] theorem config_dropNode : (s.dropNode id).config = s.config := by
  unfold dropNode unindexNode
  split <;> rfl

@[simp] theorem tracker_dropNode : (s.dropNode id).tracker = s.tracker := by
  unfold dropNode unindexNode
  split <;> rfl

@[simp] theorem nodes_forgetRelationship : (s.forgetRelationship id).nodes = s.nodes := by
  unfold forgetRelationship
  split <;> rfl

@[simp] theorem primaryIndex_forgetRelationship :
    (s.forgetRelationship id).primaryIndex = s.primaryIndex := by
  unfold forgetRelationship
  split <;> rfl

@[simp] theorem indexedKeys_forgetRelationship :
    (s.forgetRelationship id).indexedKeys = s.indexedKeys := by
  unfold forgetRelationship
  split <;> rfl

@[simp] theorem config_forgetRelationship : (s.forgetRelationship id).config = s.config := by
  unfold forgetRelationship
  split <;> rfl

@[simp] theorem tracker_forgetRelationship : (s.forgetRelationship id).tracker = s.tracker := by
  unfold forgetRelationship
  split <;> rfl

/-- The register loses the id, also when it did not hold it. -/
@[simp] theorem get?_relationships_forgetRelationship (j : NativeId) :
    (s.forgetRelationship id).relationships.get? j =
      if j = id then none else s.relationships.get? j := by
  unfold forgetRelationship
  split
  next => exact Table.get?_erase _ _ _
  next hout =>
    split
    next hj => simpa [hj, Table.contains] using hout
    next => rfl

theorem mem_records_forgetRelationship (r : Record) :
    r ∈ (s.forgetRelationship id).records ↔
      r ∈ s.records ∧ (s.relationships.contains id = true → r.names id = false) := by
  unfold forgetRelationship
  split
  next hin => simp [hin]
  next hout => simp [hout]

end Fields

/-! ## What no loss changes, and what none adds -/

theorem Loses.provider {s t : Session} (h : s.Loses t) : t.provider = s.provider := by
  cases h with
  | node id => exact provider_dropNode s id
  | purgedNode id => exact provider_dropNode s id
  | relationship id => exact provider_forgetRelationship s id
  | record r => rfl

theorem Loses.tracker {s t : Session} (h : s.Loses t) : t.tracker = s.tracker := by
  cases h with
  | node id => exact tracker_dropNode s id
  | purgedNode id => exact tracker_dropNode s id
  | relationship id => exact tracker_forgetRelationship s id
  | record r => rfl

theorem Loses.get?_nodes {s t : Session} (h : s.Loses t) {i : NativeId} {k : Handle}
    (hk : t.nodes.get? i = some k) : s.nodes.get? i = some k := by
  cases h with
  | node id =>
    rw [nodes_dropNode, Table.get?_erase] at hk
    split at hk
    · cases hk
    · exact hk
  | purgedNode id =>
    have hk : (s.dropNode id).nodes.get? i = some k := hk
    rw [nodes_dropNode, Table.get?_erase] at hk
    split at hk
    · cases hk
    · exact hk
  | relationship id => rwa [nodes_forgetRelationship] at hk
  | record r => exact hk

theorem Loses.get?_relationships {s t : Session} (h : s.Loses t) {r : NativeId} {k : Handle}
    (hk : t.relationships.get? r = some k) : s.relationships.get? r = some k := by
  cases h with
  | node id => rwa [relationships_dropNode] at hk
  | purgedNode id =>
    have hk : (s.dropNode id).relationships.get? r = some k := hk
    rwa [relationships_dropNode] at hk
  | relationship id =>
    rw [get?_relationships_forgetRelationship] at hk
    split at hk
    · cases hk
    · exact hk
  | record q => exact hk

theorem Loses.mem_records {s t : Session} (h : s.Loses t) {q : Record} (hq : q ∈ t.records) :
    q ∈ s.records := by
  cases h with
  | node id => rwa [records_dropNode] at hq
  | purgedNode id => exact (RecordSet.mem_filter.mp hq).1
  | relationship id => exact ((mem_records_forgetRelationship s id q).mp hq).1
  | record r => exact (RecordSet.mem_erase.mp hq).1

theorem Shrinks.provider {s t : Session} (h : s.Shrinks t) : t.provider = s.provider :=
  h.keeps (P := fun u => u.provider = s.provider) (fun hl hu => hl.provider.trans hu) rfl

theorem Shrinks.tracker {s t : Session} (h : s.Shrinks t) : t.tracker = s.tracker :=
  h.keeps (P := fun u => u.tracker = s.tracker) (fun hl hu => hl.tracker.trans hu) rfl

theorem Shrinks.get?_nodes {s t : Session} (h : s.Shrinks t) {i : NativeId} {k : Handle}
    (hk : t.nodes.get? i = some k) : s.nodes.get? i = some k :=
  h.keeps (P := fun u => u.nodes.get? i = some k → s.nodes.get? i = some k)
    (fun hl hu hk => hu (hl.get?_nodes hk)) id hk

theorem Shrinks.get?_relationships {s t : Session} (h : s.Shrinks t) {r : NativeId} {k : Handle}
    (hk : t.relationships.get? r = some k) : s.relationships.get? r = some k :=
  h.keeps (P := fun u => u.relationships.get? r = some k → s.relationships.get? r = some k)
    (fun hl hu hk => hu (hl.get?_relationships hk)) id hk

theorem Shrinks.get?_register {s t : Session} (h : s.Shrinks t) {reg : Register} {i : NativeId}
    {k : Handle} (hk : (t.register reg).get? i = some k) : (s.register reg).get? i = some k := by
  cases reg with
  | node => exact h.get?_nodes hk
  | relationship => exact h.get?_relationships hk

theorem Shrinks.mem_records {s t : Session} (h : s.Shrinks t) {q : Record} (hq : q ∈ t.records) :
    q ∈ s.records :=
  h.keeps (P := fun u => q ∈ u.records → q ∈ s.records) (fun hl hu hq => hu (hl.mem_records hq)) id hq

/-! ## Every removal shrinks -/

theorem PurgeStep.shrinks {s : Session} {heap : Heap} {visited : Visited} {h : Handle}
    {o : Outcome (List Handle × Visited)} (hs : s.PurgeStep heap visited h o) :
    s.Shrinks o.session := by
  cases hs with
  | node => exact .of_loses (.purgedNode _)
  | relationship => exact .of_loses (.relationship _)
  | endless => exact .of_loses (.relationship _)
  | _ => exact .refl s

theorem purge_shrinks (s : Session) (heap : Heap) (h : Handle) :
    s.Shrinks (s.purge heap h).session :=
  purgeAll_induction (P := fun t _ _ => s.Shrinks t) (Q := fun o => s.Shrinks o.session)
    (fun ht => ht) (fun ht hstep => ht.trans hstep.shrinks) (fun ht hstep => ht.trans hstep.shrinks)
    (.refl s)

theorem shrinks_of_purge {s t : Session} {heap : Heap} {h : Handle} {answer : Except Error Unit}
    (hp : s.purge heap h = ⟨t, answer⟩) : s.Shrinks t := by
  have hs := purge_shrinks s heap h
  rwa [hp] at hs

/-- A purge leaves nothing under the key of its entity, also when it is cut short: the entity is the
first to go. -/
theorem untracked_of_purge {s t : Session} {heap : Heap} {h : Handle} {answer : Except Error Unit}
    (hp : s.purge heap h = ⟨t, answer⟩) {reg : Register} {id : NativeId}
    (hkey : s.StandsFor heap h reg id) : (t.register reg).get? id = none := by
  have hstays : ∀ {u u' : Session}, u.Shrinks u' → (u.register reg).get? id = none →
      (u'.register reg).get? id = none := by
    intro u u' hshrinks hnone
    cases hu : (u'.register reg).get? id with
    | none => rfl
    | some k =>
      rw [hshrinks.get?_register hu] at hnone
      cases hnone
  -- either the entity still waits alone in the queue, or its key is free and stays so
  have hfree : ((s.purge heap h).session.register reg).get? id = none := by
    refine purgeAll_induction
      (P := fun u visited pending =>
        u = s ∧ visited = [] ∧ pending = [h] ∨ (u.register reg).get? id = none)
      (Q := fun o => (o.session.register reg).get? id = none) ?_ ?_ ?_
      (.inl ⟨rfl, rfl, rfl⟩)
    · rintro u visited (⟨-, -, ⟨⟩⟩ | hnone)
      exact hnone
    · rintro u visited k rest u' e (⟨rfl, -, hpending⟩ | hnone) hstep
      · obtain ⟨rfl, rfl⟩ := List.cons.inj hpending
        cases hstep with
        | unknown _ htype => exact nomatch htype.symm.trans hkey.2
        | endless hk hnew hin hends =>
          obtain ⟨rfl, rfl⟩ := hk.unique hkey
          exact (get?_relationships_forgetRelationship _ _ _).trans (if_pos rfl)
      · exact hstays hstep.shrinks hnone
    · rintro u visited k rest u' found seen (⟨rfl, rfl, hpending⟩ | hnone) hstep
      · obtain ⟨rfl, rfl⟩ := List.cons.inj hpending
        right
        cases hstep with
        | noId hid =>
          rw [hkey.1] at hid
          cases hid
        | seen hk hseen => exact absurd hseen List.not_mem_nil
        | untracked hk hnew hout =>
          obtain ⟨rfl, rfl⟩ := hk.unique hkey
          exact Table.contains_eq_false_iff.mp hout
        | node hk hnew hin =>
          obtain ⟨rfl, rfl⟩ := hk.unique hkey
          show (u.dropNode _).nodes.get? _ = none
          rw [nodes_dropNode, Table.get?_erase, if_pos rfl]
        | relationship hk hnew hin hends =>
          obtain ⟨rfl, rfl⟩ := hk.unique hkey
          exact (get?_relationships_forgetRelationship _ _ _).trans (if_pos rfl)
      · exact .inr (hstays hstep.shrinks hnone)
  rwa [hp] at hfree

/-- Nothing is tracked under a key that the entity stands for. -/
def StandsForNothing (s : Session) (heap : Heap) (h : Handle) : Prop :=
  ∀ reg id, s.StandsFor heap h reg id → (s.register reg).get? id = none

theorem StandsForNothing.not_contains {s : Session} {heap : Heap} {h : Handle} {reg : Register}
    {id : NativeId} (hnothing : s.StandsForNothing heap h) (hkey : s.StandsFor heap h reg id) :
    ¬ (s.register reg).contains id = true := by
  intro hin
  rw [Table.contains, hnothing reg id hkey] at hin
  cases hin

/-- A purge of an entity that stands for nothing removes nothing, whatever it answers, and though the
entity itself may be tracked. -/
theorem purge_of_standsForNothing {s : Session} {heap : Heap} {h : Handle}
    (hnothing : s.StandsForNothing heap h) : (s.purge heap h).session = s := by
  -- the entity is alone in the queue, and puts nothing there
  refine purgeAll_induction (P := fun u _ pending => u = s ∧ (pending = [h] ∨ pending = []))
    (Q := fun o => o.session = s) ?_ ?_ ?_ ⟨rfl, .inl rfl⟩
  · rintro u visited ⟨rfl, -⟩
    rfl
  · rintro u visited k rest u' e ⟨rfl, hpending | ⟨⟨⟩⟩⟩ hstep
    obtain ⟨rfl, rfl⟩ := List.cons.inj hpending
    cases hstep with
    | unknown => rfl
    | endless hkey _ hin => exact absurd hin (hnothing.not_contains hkey)
  · rintro u visited k rest u' found seen ⟨rfl, hpending | ⟨⟨⟩⟩⟩ hstep
    obtain ⟨rfl, rfl⟩ := List.cons.inj hpending
    cases hstep with
    | noId | seen | untracked => exact ⟨rfl, .inr rfl⟩
    | node hkey _ hin => exact absurd hin (hnothing.not_contains hkey)
    | relationship hkey _ hin => exact absurd hin (hnothing.not_contains hkey)

/-- A loop of removals shrinks, also when it is cut short. -/
theorem forEach_shrinks {α : Type} {step : Session → α → Outcome Unit}
    (hstep : ∀ (s : Session) (a : α), s.Shrinks (step s a).session) (s : Session) (items : List α) :
    s.Shrinks (forEach step s items).session := by
  induction items generalizing s with
  | nil => exact .refl s
  | cons a rest ih =>
    simp only [forEach, Outcome.andThen]
    split
    · exact (hstep s a).trans (ih (step s a).session)
    · exact hstep s a

theorem removeConcreteType_shrinks (s : Session) (heap : Heap) (name : TypeName) :
    s.Shrinks (s.removeConcreteType heap name).session := by
  unfold removeConcreteType
  split
  · exact .refl s
  · exact forEach_shrinks (fun t h => purge_shrinks t heap h) s _

theorem removeType_shrinks (s : Session) (heap : Heap) (name : TypeName) :
    s.Shrinks (s.removeType heap name).session := by
  unfold removeType
  split
  · exact .refl s
  · exact removeConcreteType_shrinks s heap name
  · split
    · exact .refl s
    · exact forEach_shrinks (fun t n => removeConcreteType_shrinks t heap n) s _

theorem purgeFound_shrinks (s : Session) (heap : Heap) (found : Option Handle) :
    s.Shrinks (s.purgeFound heap found).session := by
  cases found with
  | none => exact .refl s
  | some h =>
    simp only [purgeFound, Outcome.andThen]
    split <;> exact purge_shrinks s heap h

theorem dropNodeOf_shrinks (s : Session) (e : Entity) : s.Shrinks (s.dropNodeOf e) := by
  unfold dropNodeOf
  split
  · exact .of_loses (.node _)
  · exact .refl s

theorem foldl_forgetRelationship_shrinks (s : Session) (ids : List NativeId) :
    s.Shrinks (ids.foldl forgetRelationship s) := by
  induction ids generalizing s with
  | nil => exact .refl s
  | cons id rest ih => exact (Shrinks.of_loses (.relationship id)).trans (ih _)

theorem removeNode_shrinks (s : Session) (heap : Heap) (h : Handle) (withDependents : Bool) :
    s.Shrinks (s.removeNode heap h withDependents).session := by
  have hdrop := dropNodeOf_shrinks s (heap.get h)
  unfold removeNode
  dsimp only
  split
  · unfold dropDependents
    split
    · exact hdrop
    · exact hdrop.trans (foldl_forgetRelationship_shrinks _ _)
  · exact hdrop

end ObjectGraph.Session
