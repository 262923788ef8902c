import ObjectGraph.Proofs.Agreement
import ObjectGraph.Proofs.Dependents
import ObjectGraph.Proofs.Replacement

/-!
# A removal that breaks off

Registering a relationship entity looks at no type, so a session may come to track one whose ends cannot
be told. To remove a node with its dependents all tracked relationship entities are looked through, and
one such entity is enough for the removal to be refused, whichever node it is about.

The look through finds every dependent before the first is dropped, so a refusal drops none. But the
node has been dropped before that. So a refused removal has changed nothing only where there was no node
to remove (`World.run_removeNode_refused`).
-/

set_option autoImplicit false

namespace ObjectGraph

open Schema

namespace Session

variable {s t : Session} {heap : Heap} {h : Handle} {err : Error}

/-- The ends of an entity cannot be told if its type is not known or has none. -/
theorem endpoints_eq_error_iff {e : Entity} :
    s.endpoints e = .error err ↔ s.provider.typeInfo e.typeName = .error err ∨
      ∃ info, s.provider.typeInfo e.typeName = .ok info ∧ info.kind ≠ .relationship ∧
        err = .notARelationshipType e.typeName := by
  unfold endpoints Provider.startField Provider.endField
  cases s.provider.typeInfo e.typeName with
  | error e => simp [Except.bind]
  | ok info =>
    cases hrole : info.role <;>
      simp [Except.bind, TypeInfo.startField, TypeInfo.endField, TypeInfo.kind, hrole, Role.kind,
        Provider.orNotARelationship, eq_comm]

theorem dependents_congr (hp : t.provider = s.provider) (entries : List (NativeId × Handle)) :
    t.dependents heap h entries = s.dependents heap h entries := by
  induction entries with
  | nil => rfl
  | cons e rest ih => simp only [dependents, endpoints_congr hp, ih]

/-- The look through comes to the end and the ends of all entities can be told, or it fails by one whose
ends cannot. -/
theorem dependents_cases (s : Session) (heap : Heap) (h : Handle)
    (entries : List (NativeId × Handle)) :
    (∃ ids, s.dependents heap h entries = .ok ids ∧
        ∀ e ∈ entries, ∃ ends, s.endpoints (heap.get e.2) = .ok ends) ∨
      ∃ err, s.dependents heap h entries = .error err ∧
        ∃ e ∈ entries, s.endpoints (heap.get e.2) = .error err := by
  induction entries with
  | nil => exact .inl ⟨[], rfl, fun e he => absurd he List.not_mem_nil⟩
  | cons e rest ih =>
    obtain ⟨id, r⟩ := e
    simp only [dependents]
    cases hends : s.endpoints (heap.get r) with
    | error err => exact .inr ⟨err, rfl, (id, r), List.mem_cons_self, hends⟩
    | ok ends =>
      obtain ⟨ids, hids, hall⟩ | ⟨err, herr, e, he, hfails⟩ := ih
      · rw [hids]
        refine .inl ⟨_, rfl, fun e he => ?_⟩
        rcases List.mem_cons.mp he with rfl | he
        · exact ⟨ends, hends⟩
        · exact hall e he
      · rw [herr]
        exact .inr ⟨err, rfl, e, List.mem_cons_of_mem _ he, hfails⟩

theorem exists_of_dependents_eq_error {entries : List (NativeId × Handle)}
    (herr : s.dependents heap h entries = .error err) :
    ∃ e ∈ entries, s.endpoints (heap.get e.2) = .error err := by
  obtain ⟨ids, hids, -⟩ | ⟨err', herr', hfails⟩ := dependents_cases s heap h entries
  · exact nomatch herr.symm.trans hids
  · obtain rfl := Except.error.inj (herr.symm.trans herr')
    exact hfails

/-- The look through fails if the ends of any entity cannot be told, be it a dependent or not. -/
theorem dependents_fails_iff {entries : List (NativeId × Handle)} :
    (∃ err, s.dependents heap h entries = .error err) ↔
      ∃ e ∈ entries, ∃ err, s.endpoints (heap.get e.2) = .error err := by
  constructor
  · intro ⟨err, herr⟩
    obtain ⟨e, he, hfails⟩ := exists_of_dependents_eq_error herr
    exact ⟨e, he, err, hfails⟩
  · intro ⟨e, he, err, hfails⟩
    obtain ⟨ids, -, hall⟩ | ⟨err', herr', -⟩ := dependents_cases s heap h entries
    · obtain ⟨ends, hends⟩ := hall e he
      exact nomatch hfails.symm.trans hends
    · exact ⟨err', herr'⟩

/-! ## The node is gone by then -/

/-- The relationship entities are looked through as they stood before the node was dropped. -/
theorem removeNode_eq_error_iff :
    (s.removeNode heap h true).answer = .error err ↔
      s.dependents heap h s.relationships.entries = .error err := by
  simp only [removeNode, if_true, dropDependents, relationships_dropNodeOf,
    dependents_congr (provider_dropNodeOf s _)]
  split
  next e hfound => simp [hfound]
  next ids hfound => simp [hfound]

/-- A refused removal has dropped the node, and has done nothing else. -/
theorem session_removeNode_of_error (hr : (s.removeNode heap h true).answer = .error err) :
    (s.removeNode heap h true).session = s.dropNodeOf (heap.get h) := by
  rw [removeNode_eq_error_iff] at hr
  simp only [removeNode, if_true, dropDependents, relationships_dropNodeOf,
    dependents_congr (provider_dropNodeOf s _), hr]

theorem IndexCoherent.dropNodeOf_eq_self_iff (hs : s.IndexCoherent) {e : Entity} :
    s.dropNodeOf e = s ↔ ∀ i, e.id = some i → s.nodes.get? i = none := by
  cases hid : e.id with
  | none => simp [dropNodeOf_of_noId s hid]
  | some id => simp [dropNodeOf_of_id s hid, hs.dropNode_eq_self_iff]

end Session

namespace World

open Session

/-- **A refused removal loses the node.** In every world that a run comes to, the registers in whatever
order, whatever the provider: removing an entity with its dependents is refused exactly if there is a
tracked relationship entity whose ends cannot be told, be it a dependent or not, because its type is
not known or is no relationship type; the error is that of such an entity. No relationship entity is
dropped then and no record. But the node that was tracked under the id of the entity has been, with the
index entry that the id claimed, while the other nodes and entries are as they were, in their order. So
nothing has changed exactly if no node was tracked under the id. -/
theorem run_removeNode_refused (heap : Heap) (provider : Provider) (config : Config)
    (ops : List Operation) :
    let w := (start heap provider config).run ops
    ∀ s, w.session.Agrees s → ∀ h,
      ((∃ err, (s.removeNode w.heap h true).answer = .error err) ↔
        ∃ r k err, s.relationships.get? r = some k ∧ s.endpoints (w.heap.get k) = .error err) ∧
      ∀ err, (s.removeNode w.heap h true).answer = .error err →
        let v := (s.removeNode w.heap h true).session
        (∃ r k, s.relationships.get? r = some k ∧
          (provider.typeInfo (w.heap.get k).typeName = .error err ∨
            ∃ info, provider.typeInfo (w.heap.get k).typeName = .ok info ∧
              info.kind ≠ .relationship ∧ err = .notARelationshipType (w.heap.get k).typeName)) ∧
        (v.relationships = s.relationships ∧ v.records = s.records ∧ v.tracker = s.tracker) ∧
        (∀ i, v.nodes.get? i = if (w.heap.get h).id = some i then none else s.nodes.get? i) ∧
        (∀ key, v.indexed key = (s.indexed key).filter fun e =>
          (w.heap.get h).id.bind s.indexedKeys.get? ≠ some (key, e.1)) ∧
        (v = s ↔ ∀ i, (w.heap.get h).id = some i → s.nodes.get? i = none) := by
  intro w s hagrees h
  have hp : s.provider = provider :=
    hagrees.provider.symm.trans (provider_run (start heap provider config) ops)
  have hs : s.IndexCoherent := hagrees.indexCoherent (indexCoherent_run heap provider config ops)
  refine ⟨?_, fun err hr => ?_⟩
  · simp only [removeNode_eq_error_iff, dependents_fails_iff, Table.get?_eq_some_iff, Prod.exists,
      exists_and_left]
  · obtain ⟨e, he, hends⟩ := exists_of_dependents_eq_error (removeNode_eq_error_iff.mp hr)
    rw [endpoints_eq_error_iff, hp] at hends
    rw [session_removeNode_of_error hr]
    exact ⟨⟨e.1, e.2, Table.get?_eq_some_iff.mpr he, hends⟩,
      ⟨relationships_dropNodeOf s _, records_dropNodeOf s _, tracker_dropNodeOf s _⟩,
      get?_nodes_dropNodeOf s _, indexed_dropNodeOf s _, hs.dropNodeOf_eq_self_iff⟩

/-- The first person is registered as Ann, and the second as a relationship entity. -/
def misfiled : List Operation :=
  [.edit ⟨0⟩ (naming (.string "Ann")), .registerNode ⟨0⟩, .registerRelationship ⟨1⟩ 2]

/-- Neither of them can be removed with what depends on it, since a person has no ends. Trying loses the
first, and changes nothing about the second, who is not tracked as a node. -/
theorem removeNode_misfiled :
    let w := (start twoPersons namedDomain.provider .standard).run misfiled
    (∃ err, (w.session.removeNode w.heap ⟨0⟩ true).answer = .error err) ∧
      (w.session.removeNode w.heap ⟨0⟩ true).session ≠ w.session ∧
      (∃ err, (w.session.removeNode w.heap ⟨1⟩ true).answer = .error err) ∧
      (w.session.removeNode w.heap ⟨1⟩ true).session = w.session := by
  intro w
  have hrefused := run_removeNode_refused twoPersons namedDomain.provider .standard misfiled
    w.session (.refl _)
  have hends : ∃ r k err, w.session.relationships.get? r = some k ∧
      w.session.endpoints (w.heap.get k) = .error err :=
    ⟨2, ⟨1⟩, .notARelationshipType ⟨"Person"⟩, by decide +kernel, by decide +kernel⟩
  have hfirst : w.session.nodes.get? 1 = some ⟨0⟩ := by decide +kernel
  have hsecond : w.session.nodes.get? 2 = none := by decide +kernel
  obtain ⟨hfails, hleft⟩ := hrefused ⟨0⟩
  obtain ⟨hfails', hleft'⟩ := hrefused ⟨1⟩
  obtain ⟨err, herr⟩ := hfails.mpr hends
  obtain ⟨err', herr'⟩ := hfails'.mpr hends
  obtain ⟨-, -, -, -, hsame⟩ := hleft err herr
  obtain ⟨-, -, -, -, hsame'⟩ := hleft' err' herr'
  refine ⟨⟨err, herr⟩, fun heq => ?_, ⟨err', herr'⟩, hsame'.mpr fun i hi => ?_⟩
  · rw [hsame.mp heq 1 rfl] at hfirst
    cases hfirst
  · obtain rfl : 2 = i := Option.some.inj hi
    exact hsecond

/-- Ann could be found by her id and by her name, until the removal that was refused. -/
theorem ann_lost_by_removeNode :
    let w := (start twoPersons namedDomain.provider .standard).run misfiled
    (w.session.removeNode w.heap ⟨0⟩ true).answer = .error (.notARelationshipType ⟨"Person"⟩) ∧
    w.session.lookupNode (.integer 1) = some ⟨0⟩ ∧
    w.session.lookupNode (.string "Ann") = some ⟨0⟩ ∧
    let v := w.after (.removeNode ⟨0⟩ true)
    v.session.lookupNode (.integer 1) = none ∧ v.session.lookupNode (.string "Ann") = none ∧
      ¬ (v.session.nodes.get? 1 = w.session.nodes.get? 1) :=
  ⟨by decide +kernel, by decide +kernel, by decide +kernel, by decide +kernel, by decide +kernel,
    by decide +kernel⟩

end World

end ObjectGraph
