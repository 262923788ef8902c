import ObjectGraph.Session.Nodes

/-!
# Purging

Purging an entity removes it together with everything that depends on it. With a node go the records
that touch it, and the relationship entities that those records name are purged too; with a
relationship entity go the records that name it, and its start and end nodes are purged too. So what
hangs together by tracked relationship entities goes in one call.

The entities still to be purged wait in a queue, and the ids that have been seen are kept apart by
register. The queue may grow while it is drained. It still runs empty, because what an entity adds to
it is paid for by what the entity takes out of the registers: a node adds at most one entity for each
record that goes, and a relationship entity, when it goes, adds at most two (`purgeOne_budget`).

A type that the provider does not know stops the purge, and what was removed before stays removed.
-/

set_option autoImplicit false

namespace ObjectGraph.Session

/-- The register that an entity is purged from. -/
inductive Register where
  | node
  | relationship
deriving DecidableEq, Repr

/-- The ids that a purge has seen. -/
abbrev Visited := List (Register × NativeId)

/-- The relationship entities that records name, as far as they are tracked. -/
def namedRelationships (s : Session) (records : List Record) : List Handle :=
  records.filterMap fun r => r.relationship.bind s.relationships.get?

/-- Removes the node with an id and the records that touch it; the answer is the relationship entities
that those records name. -/
def purgeNode (s : Session) (id : NativeId) : Session × List Handle :=
  let rest := s.dropNode id
  ({ rest with records := s.records.filter fun r => !r.touches id },
    s.namedRelationships (s.records.toList.filter fun r => r.touches id))

/-- Purges one entity of the queue; the answer is the entities that this puts at the end of the queue,
and the ids seen. -/
def purgeOne (s : Session) (heap : Heap) (visited : Visited) (h : Handle) :
    Outcome (List Handle × Visited) :=
  match (heap.get h).id with
  | none => ⟨s, .ok ([], visited)⟩
  | some id =>
    match s.provider.isRelationshipType (heap.get h).typeName with
    | .error e => ⟨s, .error e⟩
    | .ok true =>
      if (Register.relationship, id) ∈ visited then ⟨s, .ok ([], visited)⟩
      else
        let visited := (.relationship, id) :: visited
        if s.relationships.contains id then
          let rest := s.forgetRelationship id
          match s.endpoints (heap.get h) with
          | .error e => ⟨rest, .error e⟩
          | .ok (start, stop) => ⟨rest, .ok (start.toList ++ stop.toList, visited)⟩
        else ⟨s, .ok ([], visited)⟩
    | .ok false =>
      if (Register.node, id) ∈ visited then ⟨s, .ok ([], visited)⟩
      else
        let visited := (.node, id) :: visited
        if s.nodes.contains id then
          let (rest, found) := s.purgeNode id
          ⟨rest, .ok (found, visited)⟩
        else ⟨s, .ok ([], visited)⟩

/-! ## Why the queue runs empty -/

/-- How many entities may still come into the queue. -/
def budget (s : Session) : Nat := s.records.size + 2 * s.relationships.size

theorem size_erase_lt {t : Table NativeId Handle} {id : NativeId} (h : t.contains id = true) :
    (t.erase id).size < t.size := by
  obtain ⟨a, ha⟩ := Option.isSome_iff_exists.mp h
  refine List.length_filter_lt_length_iff_exists.mpr ⟨(id, a), Table.get?_eq_some_iff.mp ha, ?_⟩
  simp

theorem budget_forgetRelationship {s : Session} {id : NativeId} (h : s.relationships.contains id = true) :
    2 + (s.forgetRelationship id).budget ≤ s.budget := by
  have hr := RecordSet.size_filter_le (fun r => !r.names id) s.records
  have ht := size_erase_lt h
  simp only [forgetRelationship, h, if_true, budget]
  omega

theorem relationships_dropNode (s : Session) (id : NativeId) :
    (s.dropNode id).relationships = s.relationships := by
  unfold dropNode unindexNode
  split <;> rfl

theorem budget_purgeNode (s : Session) (id : NativeId) :
    (s.purgeNode id).2.length + (s.purgeNode id).1.budget ≤ s.budget := by
  have hf := RecordSet.size_filter_add (fun r => !r.touches id) s.records
  have hl := List.length_filterMap_le (fun r : Record => r.relationship.bind s.relationships.get?)
    (s.records.toList.filter fun r => r.touches id)
  simp only [Bool.not_not] at hf
  simp only [purgeNode, namedRelationships, budget, relationships_dropNode]
  omega

/-- Whatever an entity puts into the queue, the registers lose as much. -/
theorem purgeOne_budget {s s' : Session} {heap : Heap} {visited seen : Visited} {h : Handle}
    {found : List Handle} (ho : s.purgeOne heap visited h = ⟨s', .ok (found, seen)⟩) :
    found.length + s'.budget ≤ s.budget := by
  have hnothing : ∀ {v : Visited}, Outcome.mk s (.ok ([], v)) = ⟨s', .ok (found, seen)⟩ →
      found.length + s'.budget ≤ s.budget := by
    intro v h
    obtain ⟨rfl, hanswer⟩ := Outcome.mk.inj h
    obtain ⟨rfl, -⟩ := Prod.mk.inj (Except.ok.inj hanswer)
    exact Nat.le_of_eq (Nat.zero_add _)
  unfold purgeOne at ho
  split at ho
  next hid => exact hnothing ho
  next id hid =>
    split at ho
    next e hunknown => cases ho
    next hrelationship =>
      split at ho
      next hseen => exact hnothing ho
      next hnew =>
        split at ho
        next hin =>
          split at ho
          next e hendless => cases ho
          next start stop hends =>
            obtain ⟨rfl, hanswer⟩ := Outcome.mk.inj ho
            obtain ⟨rfl, -⟩ := Prod.mk.inj (Except.ok.inj hanswer)
            have hpaid := budget_forgetRelationship hin
            have hstart : start.toList.length ≤ 1 := by cases start <;> simp
            have hstop : stop.toList.length ≤ 1 := by cases stop <;> simp
            rw [List.length_append]
            omega
        next hout => exact hnothing ho
    next hnode =>
      split at ho
      next hseen => exact hnothing ho
      next hnew =>
        split at ho
        next hin =>
          obtain ⟨rfl, hanswer⟩ := Outcome.mk.inj ho
          obtain ⟨rfl, -⟩ := Prod.mk.inj (Except.ok.inj hanswer)
          exact budget_purgeNode s id
        next hout => exact hnothing ho

/-! ## The whole queue -/

/-- Purges the entities of a queue and all that this leads to. -/
def purgeAll (s : Session) (heap : Heap) (visited : Visited) : List Handle → Outcome Unit
  | [] => ⟨s, .ok ()⟩
  | h :: rest =>
    match ho : s.purgeOne heap visited h with
    | ⟨s', .error e⟩ => ⟨s', .error e⟩
    | ⟨s', .ok (found, seen)⟩ =>
      have := purgeOne_budget ho
      purgeAll s' heap seen (rest ++ found)
termination_by pending => pending.length + s.budget
decreasing_by
  simp only [List.length_cons, List.length_append]
  omega

/-- Purges an entity. -/
def purge (s : Session) (heap : Heap) (h : Handle) : Outcome Unit := s.purgeAll heap [] [h]

end ObjectGraph.Session
