import ObjectGraph.Proofs.Cascade

/-!
# What a purge may take

A session makes no promise about what it tracks: a relationship entity may be of a type without ends,
of a type that nobody knows, or of a node type, and may stand under an id that it does not carry. A
purge of such a session may break off, behind any of its steps, and takes keys by the own ids of the
objects that it meets, whatever is tracked under them.

It is sound all the same. `Session.ComesTo` lists the objects that a purge may meet, read off the
session as it stands before, and whatever goes, goes by the own key of one of them; the records that go
are those that hang on what has gone, and nothing else changes (`World.purge_sound`). The difference to
`Session.Reached`, which says for well-kept sessions exactly what goes, is that two objects may carry one
key here: the purge takes the key once, and follows the object that it met first.
-/

set_option autoImplicit false

namespace ObjectGraph

namespace Session

/-- The objects that a purge may meet. -/
inductive ComesTo (s : Session) (heap : Heap) (root : Handle) : Handle → Prop
  | root : ComesTo s heap root root
  /-- From an object with the id of a tracked node to what is tracked under a relationship id that a
  record of the node names. -/
  | named {h k : Handle} {n r : NativeId} {q : Record} (hh : ComesTo s heap root h)
      (hkey : s.StandsFor heap h .node n) (hin : s.nodes.contains n = true) (hq : q ∈ s.records)
      (ht : q.touches n = true) (hr : q.relationship = some r)
      (hk : s.relationships.get? r = some k) : ComesTo s heap root k
  /-- From an object with the id of a tracked relationship entity to the start and the end that it
  refers to itself. -/
  | endOf {h k : Handle} {r : NativeId} (hh : ComesTo s heap root h)
      (hkey : s.StandsFor heap h .relationship r) (hin : s.relationships.contains r = true)
      (hk : s.EndOf heap h k) : ComesTo s heap root k

/-- Something was tracked under the key in the first session, and nothing is in the second. -/
def Removed (s t : Session) (reg : Register) (i : NativeId) : Prop :=
  (s.register reg).contains i = true ∧ (t.register reg).contains i = false

/-- How far a purge has come, in a session of which nothing is known. -/
structure Tracing (s : Session) (heap : Heap) (root : Handle) (t : Session) (visited : Visited)
    (pending : List Handle) : Prop where
  without : s.Without (s.Purged visited) t
  traced : ∀ {reg : Register} {i : NativeId}, s.Purged visited reg i →
    ∃ h, s.ComesTo heap root h ∧ s.StandsFor heap h reg i
  pending : ∀ h ∈ pending, s.ComesTo heap root h

section Steps

variable {s t t' : Session} {heap : Heap} {root h : Handle} {visited seen : Visited}
  {rest found : List Handle}

/-- What a purge has done is sound wherever it breaks off. -/
theorem Tracing.stop (hp : s.Tracing heap root t visited rest) : s.Tracing heap root t visited [] where
  without := hp.without
  traced := hp.traced
  pending _ hk := absurd hk List.not_mem_nil

/-- An object that nothing is removed for. -/
theorem Tracing.skip (hp : s.Tracing heap root t visited (h :: rest))
    (hpurged : ∀ reg i, s.Purged visited reg i ↔ s.Purged seen reg i) :
    s.Tracing heap root t seen (rest ++ []) where
  without := hp.without.congr hpurged
  traced hin := hp.traced ((hpurged _ _).mpr hin)
  pending k hk := by
    rw [List.append_nil] at hk
    exact hp.pending k (List.mem_cons_of_mem _ hk)

/-- An object whose key goes, and what it puts into the queue. -/
theorem Tracing.take (hp : s.Tracing heap root t visited (h :: rest)) {reg : Register}
    {id : NativeId} (hkey : s.StandsFor heap h reg id) (hin : (s.register reg).contains id = true)
    (hgone : t.Without (only reg id) t') (hfound : ∀ k ∈ found, s.ComesTo heap root k) :
    s.Tracing heap root t' ((reg, id) :: visited) (rest ++ found) where
  without := (hp.without.trans hgone).congr fun _ _ => purged_cons hin
  traced hpurged := by
    rcases (purged_cons hin).mpr hpurged with hold | ⟨rfl, rfl⟩
    · exact hp.traced hold
    · exact ⟨h, hp.pending h List.mem_cons_self, hkey⟩
  pending k hk := by
    rcases List.mem_append.mp hk with hk | hk
    · exact hp.pending k (List.mem_cons_of_mem _ hk)
    · exact hfound k hk

/-- What is tracked after part of a purge was tracked before. -/
theorem Tracing.contains (hp : s.Tracing heap root t visited rest) {reg : Register} {i : NativeId}
    (hin : (t.register reg).contains i = true) : (s.register reg).contains i = true :=
  (hp.without.contains_register.mp hin).1

/-- A node goes. The records that lead on are still there, so they were there before. -/
theorem Tracing.takeNode (hp : s.Tracing heap root t visited (h :: rest)) {id : NativeId}
    (hkey : s.StandsFor heap h .node id) (hin : (t.register .node).contains id = true) :
    s.Tracing heap root (t.purgeNode id).1 ((.node, id) :: visited)
      (rest ++ (t.purgeNode id).2) := by
  have hcomes : s.ComesTo heap root h := hp.pending h List.mem_cons_self
  refine hp.take hkey (hp.contains hin) (purgeNode_without t id) fun k hk => ?_
  obtain ⟨q, hq, ht, r, hr, hk⟩ := mem_purgeNode_iff.mp hk
  exact .named hcomes hkey (hp.contains hin) (hp.without.mem_records.mp hq).1 ht hr
    (hp.without.get?_relationships.mp hk).1

/-- A relationship entity goes, and its ends are put into the queue. -/
theorem Tracing.takeRelationship (hp : s.Tracing heap root t visited (h :: rest)) {id : NativeId}
    {start stop : Option Handle} (hkey : s.StandsFor heap h .relationship id)
    (hin : (t.register .relationship).contains id = true)
    (hends : s.endpoints (heap.get h) = .ok (start, stop)) :
    s.Tracing heap root (t.forgetRelationship id) ((.relationship, id) :: visited)
      (rest ++ (start.toList ++ stop.toList)) := by
  have hcomes : s.ComesTo heap root h := hp.pending h List.mem_cons_self
  refine hp.take hkey (hp.contains hin) (forgetRelationship_without hin) fun k hk => ?_
  rw [List.mem_append, Option.mem_toList, Option.mem_toList] at hk
  exact .endOf hcomes hkey (hp.contains hin) ((endOf_iff hends).mpr hk)

/-- Every step that a purge goes on after. -/
theorem Tracing.step (hp : s.Tracing heap root t visited (h :: rest))
    (hstep : t.PurgeStep heap visited h ⟨t', .ok (found, seen)⟩) :
    s.Tracing heap root t' seen (rest ++ found) := by
  have hprovider := hp.without.provider
  cases hstep with
  | noId hid => exact hp.skip fun _ _ => Iff.rfl
  | seen hkey hin => exact hp.skip fun _ _ => Iff.rfl
  | @untracked reg id hkey hnew hnone =>
    -- the key has not been seen, so it was not tracked at first either
    have hout : ¬ (s.register reg).contains id = true := by
      intro hin
      have hstays := hp.without.contains_register.mpr ⟨hin, fun hpurged => hnew hpurged.1⟩
      rw [hnone] at hstays
      cases hstays
    exact hp.skip fun _ _ => purged_cons_of_untracked hout
  | node hkey hnew hin => exact hp.takeNode ((standsFor_congr hprovider).mp hkey) hin
  | relationship hkey hnew hin hends =>
    rw [endpoints_congr hprovider] at hends
    exact hp.takeRelationship ((standsFor_congr hprovider).mp hkey) hin hends

/-- A step that breaks the purge off has changed nothing, or has taken one more key. -/
theorem Tracing.breaksOff (hp : s.Tracing heap root t visited (h :: rest)) {e : Error}
    (hstep : t.PurgeStep heap visited h ⟨t', .error e⟩) :
    ∃ seen, s.Tracing heap root t' seen [] := by
  cases hstep with
  | unknown hid htype => exact ⟨visited, hp.stop⟩
  | @endless id _ hkey hnew hin hends =>
    have hkey := (standsFor_congr hp.without.provider).mp hkey
    have hnothing : ∀ k ∈ ([] : List Handle), s.ComesTo heap root k :=
      fun k hk => absurd hk List.not_mem_nil
    exact ⟨(.relationship, id) :: visited,
      (hp.take hkey (hp.contains hin) (forgetRelationship_without hin) hnothing).stop⟩

end Steps

/-- Wherever a purge ends or breaks off, what it has done is sound. -/
theorem purge_tracing (s : Session) (heap : Heap) (root : Handle) :
    ∃ seen, s.Tracing heap root (s.purge heap root).session seen [] := by
  refine purgeAll_induction (P := s.Tracing heap root)
    (Q := fun o => ∃ seen, s.Tracing heap root o.session seen [])
    (fun hp => ⟨_, hp⟩) (fun hp hstep => hp.breaksOff hstep) (fun hp hstep => hp.step hstep) ?_
  refine ⟨without_purged_nil s, fun h => absurd h not_purged_nil, ?_⟩
  intro h hh
  obtain rfl := List.mem_singleton.mp hh
  exact .root

/-- What a purge has removed is what it has seen of the tracked keys. -/
theorem Without.removed_iff {s t : Session} {visited : Visited} (h : s.Without (s.Purged visited) t)
    (reg : Register) (i : NativeId) : s.Purged visited reg i ↔ s.Removed t reg i := by
  unfold Removed
  rw [Bool.eq_false_iff, ne_eq, h.contains_register]
  refine ⟨fun hp => ⟨hp.2, fun hstays => hstays.2 hp⟩, fun hr => ?_⟩
  exact Classical.byContradiction fun hno => hr.2 ⟨hr.1, hno⟩

/-- The type of the root is asked for first. -/
theorem purge_of_unknown {s : Session} {heap : Heap} {h : Handle} {e : Error}
    (hid : (heap.get h).id ≠ none)
    (htype : s.provider.isRelationshipType (heap.get h).typeName = .error e) :
    s.purge heap h = ⟨s, .error e⟩ := by
  obtain ⟨id, hid⟩ := Option.ne_none_iff_exists'.mp hid
  have hstep : s.purgeOne heap [] h = ⟨s, .error e⟩ := by
    simp only [purgeOne, hid, htype]
  rw [purge, purgeAll]
  split
  next s' e' ho =>
    rw [hstep] at ho
    cases ho
    rfl
  next s' found seen ho =>
    rw [hstep] at ho
    cases ho

end Session

namespace World

open Session

/-- **A purge is sound, also one that breaks off.** In any world, and whether it succeeds or fails,
purging an entity leaves the heap and the snapshots as they are and adds nothing to the session, which
is left without some of the keys that were tracked: their entries and index entries, and the records
that hang on them, and nothing else. Each of these keys is the own key of an object that the purge may
meet. If the purge succeeds, the key of the entity is among those that are free. If the type of the
entity is one that the provider cannot tell the register of, the purge fails with the provider's error,
which says of a type that is not declared that it is unknown, and changes nothing. -/
theorem purge_sound (w : World) (e : Handle) :
    let v := w.after (.removeEntity e)
    v.heap = w.heap ∧
    w.session.Without (w.session.Removed v.session) v.session ∧
    (∀ reg i, w.session.Removed v.session reg i →
      ∃ h, w.session.ComesTo w.heap e h ∧ w.session.StandsFor w.heap h reg i) ∧
    ((w.session.purge w.heap e).answer = .ok () →
      ∀ reg i, w.session.StandsFor w.heap e reg i → (v.session.register reg).get? i = none) ∧
    ((w.heap.get e).id ≠ none →
      (∀ err, w.session.provider.isRelationshipType (w.heap.get e).typeName = .error err →
        w.session.purge w.heap e = ⟨w.session, .error err⟩) ∧
      ∀ m : Schema.Domain,
        w.session.provider = m.provider ∨ w.session.provider = m.plainProvider →
        m.contains (w.heap.get e).typeName = false →
        w.session.purge w.heap e = ⟨w.session, .error (.unknownType (w.heap.get e).typeName)⟩) := by
  intro v
  obtain ⟨visited, hp⟩ := purge_tracing w.session w.heap e
  have hremoved := hp.without.removed_iff
  refine ⟨rfl, hp.without.congr hremoved, fun reg i hr => hp.traced ((hremoved reg i).mpr hr),
    fun hok reg i hkey => ?_, fun hid => ⟨fun err htype => purge_of_unknown hid htype,
      fun m hm hout => purge_of_unknown hid ?_⟩⟩
  · have hpurge : w.session.purge w.heap e = ⟨v.session, .ok ()⟩ := by
      show _ = Outcome.mk (w.session.purge w.heap e).session _
      rw [← hok]
    exact untracked_of_purge hpurge hkey
  · rcases hm with hm | hm
    · rw [hm]
      exact Schema.Domain.map_typeInfo_of_undeclared hout m.holdsRelationships
    · rw [hm]
      exact Schema.Domain.map_typeInfo_of_undeclared hout Schema.TypeInfo.isRelationship

/-- Two persons, and what the first has with the second is of a type that nobody has declared. -/
def strangers : Heap :=
  ⟨#[{ typeName := ⟨"Person"⟩, id := some 1 }, { typeName := ⟨"Person"⟩, id := some 2 },
    { typeName := ⟨"Rumour"⟩, id := some 9, references := .ofList [("from", ⟨0⟩), ("to", ⟨1⟩)] }]⟩

/-- The purge of the first person breaks off at the rumour, behind the person and the record. The
person was there to be met, and the rumour stays under an id that it does not carry. -/
theorem purge_strangers :
    let w := (start strangers acquaintance.provider .standard).run acquainted
    let v := w.after (.removeEntity ⟨0⟩)
    (w.session.purge w.heap ⟨0⟩).answer.isOk = false ∧
      w.session.Removed v.session .node 1 ∧ knows ∉ v.session.records ∧
      (∃ h, w.session.ComesTo w.heap ⟨0⟩ h ∧ w.session.StandsFor w.heap h .node 1) ∧
      v.session.relationships.get? 5 = some ⟨2⟩ ∧
      w.session.purge w.heap ⟨2⟩ = ⟨w.session, .error (.unknownType ⟨"Rumour"⟩)⟩ := by
  intro w v
  have hremoved : w.session.Removed v.session .node 1 := ⟨by decide +kernel, by decide +kernel⟩
  obtain ⟨-, hwithout, htraced, -, -⟩ := purge_sound w ⟨0⟩
  refine ⟨by decide +kernel, hremoved, fun hstays => ?_, htraced .node 1 hremoved, by decide +kernel,
    ?_⟩
  · have hhangs : knows.HangsOn (w.session.Removed v.session) := .inl ⟨1, hremoved, rfl⟩
    exact (hwithout.mem_records.mp hstays).2 hhangs
  · exact ((purge_sound w ⟨2⟩).2.2.2.2 (by decide +kernel)).2 acquaintance (.inl rfl) (by decide +kernel)

end World

end ObjectGraph
