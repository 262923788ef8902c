import ObjectGraph.Session.Purge

/-!
# One step of a purge

A purge takes one entity after the other from its queue. What it does with an entity depends on the
key that the entity stands for, its own id in the register of its own type (`Session.StandsFor`), and
not on the object that the session tracks under that key. `Session.PurgeStep` lists all that can
happen, each case with what led to it, and `purgeStep` says that the list is complete. Nothing else
needs to look into the step.

`purgeAll_induction` is the one induction over the queue: what holds before a step and is kept by it
holds when the queue has run empty, and in the world that a failing step leaves behind.
-/

set_option autoImplicit false

namespace ObjectGraph.Session

/-- The table of a register. -/
def register (s : Session) : Register → Table NativeId Handle
  | .node => s.nodes
  | .relationship => s.relationships

/-- The entity carries the id, and its type is one that the register is for. -/
def StandsFor (s : Session) (heap : Heap) (h : Handle) (reg : Register) (id : NativeId) : Prop :=
  (heap.get h).id = some id ∧
    s.provider.isRelationshipType (heap.get h).typeName = .ok (decide (reg = .relationship))

/-- An entity stands for one key at most. -/
theorem StandsFor.unique {s : Session} {heap : Heap} {h : Handle} {reg reg' : Register}
    {id id' : NativeId} (hk : s.StandsFor heap h reg id) (hk' : s.StandsFor heap h reg' id') :
    reg = reg' ∧ id = id' := by
  obtain ⟨hid, hreg⟩ := hk
  obtain ⟨hid', hreg'⟩ := hk'
  rw [hid, Option.some.injEq] at hid'
  rw [hreg, Except.ok.injEq] at hreg'
  refine ⟨?_, hid'⟩
  cases reg <;> cases reg' <;> first | rfl | simp at hreg'

/-- The entity refers to the other as its start or its end. -/
def EndOf (s : Session) (heap : Heap) (h k : Handle) : Prop :=
  ∃ start stop, s.endpoints (heap.get h) = .ok (start, stop) ∧ (start = some k ∨ stop = some k)

theorem endOf_iff {s : Session} {heap : Heap} {h k : Handle} {start stop : Option Handle}
    (hends : s.endpoints (heap.get h) = .ok (start, stop)) :
    s.EndOf heap h k ↔ start = some k ∨ stop = some k := by
  constructor
  · rintro ⟨start', stop', hends', hk⟩
    obtain ⟨rfl, rfl⟩ := Prod.mk.inj (Except.ok.inj (hends.symm.trans hends'))
    exact hk
  · exact fun hk => ⟨start, stop, hends, hk⟩

/-- What one step of a purge does to the session, puts into the queue and has seen. -/
inductive PurgeStep (s : Session) (heap : Heap) (visited : Visited) (h : Handle) :
    Outcome (List Handle × Visited) → Prop
  /-- An entity without an id is passed over. -/
  | noId (hid : (heap.get h).id = none) : PurgeStep s heap visited h ⟨s, .ok ([], visited)⟩
  /-- The type of the entity is not known. -/
  | unknown {id : NativeId} {e : Error} (hid : (heap.get h).id = some id)
      (htype : s.provider.isRelationshipType (heap.get h).typeName = .error e) :
      PurgeStep s heap visited h ⟨s, .error e⟩
  /-- The key was seen before. -/
  | seen {reg : Register} {id : NativeId} (hkey : s.StandsFor heap h reg id)
      (hseen : (reg, id) ∈ visited) : PurgeStep s heap visited h ⟨s, .ok ([], visited)⟩
  /-- Nothing is tracked under the key. -/
  | untracked {reg : Register} {id : NativeId} (hkey : s.StandsFor heap h reg id)
      (hnew : (reg, id) ∉ visited) (hnone : (s.register reg).contains id = false) :
      PurgeStep s heap visited h ⟨s, .ok ([], (reg, id) :: visited)⟩
  /-- A node goes, and the relationship entities that its records name are put into the queue. -/
  | node {id : NativeId} (hkey : s.StandsFor heap h .node id) (hnew : (.node, id) ∉ visited)
      (hin : s.nodes.contains id = true) :
      PurgeStep s heap visited h
        ⟨(s.purgeNode id).1, .ok ((s.purgeNode id).2, (.node, id) :: visited)⟩
  /-- A relationship entity goes, and the ends of the entity from the queue are put there. -/
  | relationship {id : NativeId} {start stop : Option Handle}
      (hkey : s.StandsFor heap h .relationship id) (hnew : (.relationship, id) ∉ visited)
      (hin : s.relationships.contains id = true)
      (hends : s.endpoints (heap.get h) = .ok (start, stop)) :
      PurgeStep s heap visited h
        ⟨s.forgetRelationship id, .ok (start.toList ++ stop.toList, (.relationship, id) :: visited)⟩
  /-- A relationship entity goes, but its type has no ends. -/
  | endless {id : NativeId} {e : Error} (hkey : s.StandsFor heap h .relationship id)
      (hnew : (.relationship, id) ∉ visited) (hin : s.relationships.contains id = true)
      (hends : s.endpoints (heap.get h) = .error e) :
      PurgeStep s heap visited h ⟨s.forgetRelationship id, .error e⟩

/-- The endpoints of an entity are read through the provider alone. -/
theorem endpoints_congr {s t : Session} (h : t.provider = s.provider) (e : Entity) :
    t.endpoints e = s.endpoints e := by
  unfold endpoints
  rw [h]

theorem endOf_congr {s t : Session} (hp : t.provider = s.provider) {heap : Heap} {h k : Handle} :
    t.EndOf heap h k ↔ s.EndOf heap h k := by
  simp only [EndOf, endpoints_congr hp]

@[simp] theorem provider_forgetRelationship (s : Session) (id : NativeId) :
    (s.forgetRelationship id).provider = s.provider := by
  unfold forgetRelationship
  split <;> rfl

/-- The list of steps is complete. -/
theorem purgeStep (s : Session) (heap : Heap) (visited : Visited) (h : Handle) :
    s.PurgeStep heap visited h (s.purgeOne heap visited h) := by
  unfold purgeOne
  split
  next hid => exact .noId hid
  next id hid =>
    split
    next e htype => exact .unknown hid htype
    next htype =>
      have hkey : s.StandsFor heap h .relationship id := ⟨hid, htype⟩
      split
      next hseen => exact .seen hkey hseen
      next hnew =>
        split
        next hin =>
          split
          next e hends => exact .endless hkey hnew hin hends
          next start stop hends => exact .relationship hkey hnew hin hends
        next hout => exact .untracked hkey hnew (Bool.not_eq_true _ ▸ hout)
    next htype =>
      have hkey : s.StandsFor heap h .node id := ⟨hid, htype⟩
      split
      next hseen => exact .seen hkey hseen
      next hnew =>
        split
        next hin => exact .node hkey hnew hin
        next hout => exact .untracked hkey hnew (Bool.not_eq_true _ ▸ hout)

/-- A purged node leads to the tracked relationship entities that the records of the node name. -/
theorem mem_purgeNode_iff {s : Session} {id : NativeId} {k : Handle} :
    k ∈ (s.purgeNode id).2 ↔ ∃ q ∈ s.records, q.touches id = true ∧
      ∃ r, q.relationship = some r ∧ s.relationships.get? r = some k := by
  show k ∈ s.namedRelationships _ ↔ _
  simp only [namedRelationships, List.mem_filterMap, List.mem_filter, Option.bind_eq_some_iff,
    RecordSet.mem_toList, and_assoc]

/-! ## The queue -/

/-- A purge does one step after the other. -/
theorem purgeAll_cons (s : Session) (heap : Heap) (visited : Visited) (h : Handle)
    (rest : List Handle) :
    s.purgeAll heap visited (h :: rest) =
      (s.purgeOne heap visited h).andThen fun s' next => s'.purgeAll heap next.2 (rest ++ next.1) := by
  rw [purgeAll]
  split
  next s' e ho => simp only [ho, Outcome.andThen]
  next s' found seen ho => simp only [ho, Outcome.andThen]

section

variable {heap : Heap} {P : Session → Visited → List Handle → Prop} {Q : Outcome Unit → Prop}

/-- What holds of the queue at first and is kept by each step says how the purge ends. -/
theorem purgeAll_induction (done : ∀ {s visited}, P s visited [] → Q ⟨s, .ok ()⟩)
    (fails : ∀ {s visited h rest s' e}, P s visited (h :: rest) →
      s.PurgeStep heap visited h ⟨s', .error e⟩ → Q ⟨s', .error e⟩)
    (step : ∀ {s visited h rest s' found seen}, P s visited (h :: rest) →
      s.PurgeStep heap visited h ⟨s', .ok (found, seen)⟩ → P s' seen (rest ++ found))
    {s : Session} {visited : Visited} {pending : List Handle} (hp : P s visited pending) :
    Q (s.purgeAll heap visited pending) := by
  -- along the recursion of `purgeAll`, which the budget of `purgeOne_budget` bounds
  fun_induction purgeAll s heap visited pending with
  | case1 s visited => exact done hp
  | case2 s visited h rest s' e ho => exact fails hp (ho ▸ purgeStep s heap visited h)
  | case3 s visited h rest s' found seen ho _ ih =>
    exact ih (step hp (ho ▸ purgeStep s heap visited h))

end

end ObjectGraph.Session
