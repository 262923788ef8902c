import ObjectGraph.Proofs.Backing
import ObjectGraph.Proofs.Discipline
import ObjectGraph.Proofs.Without

/-!
# What a purge takes along

Which keys hang together with an entity is a matter of the session as it stands before the purge: its
own key, the relationship entities that records of reached nodes name, and the ends of reached
relationship entities, as far as they are tracked (`Session.Reached`). The purge follows these paths
in a session that shrinks under it. A record that leads on may be gone before its node is taken from
the queue, because the node at its other end or the relationship entity that it names went first.

`Purging` is what holds all the while. The session is the first one without the keys that were seen
(`without`), what was seen has been reached (`reached`), and wherever a seen key leads has been seen
too or stands in the queue (`root`, `named`, `ends`). A record that is gone has been accounted for when
it went. Once the queue is empty, what was seen is what is reached.
-/

set_option autoImplicit false

namespace ObjectGraph.Session

/-- The tracked keys that hang together with an entity. -/
inductive Reached (s : Session) (heap : Heap) (root : Handle) : Register → NativeId → Prop
  /-- The key of the entity itself, whichever object is tracked under it. -/
  | root {reg : Register} {id : NativeId} (hkey : s.StandsFor heap root reg id)
      (hin : (s.register reg).contains id = true) : Reached s heap root reg id
  /-- From a node to the relationship entity that a record of the node names. -/
  | named {n r : NativeId} {q : Record} (hn : Reached s heap root .node n) (hq : q ∈ s.records)
      (ht : q.touches n = true) (hr : q.relationship = some r) : Reached s heap root .relationship r
  /-- From a relationship entity to the key of its start or its end. -/
  | endOf {r j : NativeId} {h k : Handle} (hr : Reached s heap root .relationship r)
      (hh : s.relationships.get? r = some h) (hk : s.EndOf heap h k) (hid : (heap.get k).id = some j)
      (hin : s.nodes.contains j = true) : Reached s heap root .node j

/-- Each tracked entity stands for the key that it is tracked under, records are backed, and the ends
of relationship entities are nodes. -/
structure Grounded (s : Session) (heap : Heap) : Prop where
  standsFor : ∀ {reg : Register} {i : NativeId} {h : Handle},
    (s.register reg).get? i = some h → s.StandsFor heap h reg i
  backed : s.Backed
  ended : ∀ {r : NativeId} {h : Handle}, s.relationships.get? r = some h →
    ∃ start stop, s.endpoints (heap.get h) = .ok (start, stop)
  ends : ∀ {r : NativeId} {h k : Handle}, s.relationships.get? r = some h → s.EndOf heap h k →
    s.provider.typing .node (heap.get k).typeName

/-- The key was seen, and something was tracked under it. -/
def Purged (s : Session) (visited : Visited) (reg : Register) (i : NativeId) : Prop :=
  (reg, i) ∈ visited ∧ (s.register reg).contains i = true

/-- The key was seen, or an entity of the queue stands for it. -/
def Covered (s : Session) (heap : Heap) (visited : Visited) (pending : List Handle) (reg : Register)
    (i : NativeId) : Prop :=
  (reg, i) ∈ visited ∨ ∃ h ∈ pending, s.StandsFor heap h reg i

/-- The entity is one that the purge has to take: its type is known, its key is reached if it is
tracked, and a relationship entity is the tracked one. -/
structure Wanted (s : Session) (heap : Heap) (root h : Handle) : Prop where
  known : ∃ reg, s.provider.typing reg (heap.get h).typeName
  reached : ∀ {reg : Register} {i : NativeId}, s.StandsFor heap h reg i →
    (s.register reg).contains i = true → s.Reached heap root reg i
  tracked : ∀ {r : NativeId}, s.StandsFor heap h .relationship r →
    s.relationships.contains r = true → s.relationships.get? r = some h

/-- How far a purge has come. -/
structure Purging (s : Session) (heap : Heap) (root : Handle) (t : Session) (visited : Visited)
    (pending : List Handle) : Prop where
  without : s.Without (s.Purged visited) t
  reached : ∀ {reg : Register} {i : NativeId}, s.Purged visited reg i → s.Reached heap root reg i
  wanted : ∀ h ∈ pending, s.Wanted heap root h
  root : ∀ {reg : Register} {i : NativeId}, s.StandsFor heap root reg i →
    s.Covered heap visited pending reg i
  named : ∀ {n r : NativeId} {q : Record}, s.Purged visited .node n → q ∈ s.records →
    q.touches n = true → q.relationship = some r → s.Covered heap visited pending .relationship r
  ends : ∀ {r j : NativeId} {h k : Handle}, s.Purged visited .relationship r →
    s.relationships.get? r = some h → s.EndOf heap h k → (heap.get k).id = some j →
    s.Covered heap visited pending .node j

/-! ## The key of an entity -/

theorem standsFor_congr {s t : Session} (hp : t.provider = s.provider) {heap : Heap} {h : Handle}
    {reg : Register} {id : NativeId} : t.StandsFor heap h reg id ↔ s.StandsFor heap h reg id := by
  unfold StandsFor
  rw [hp]

/-- An entity of a node type stands for no relationship. -/
theorem StandsFor.not_node {s : Session} {heap : Heap} {h : Handle} {r : NativeId}
    (hkey : s.StandsFor heap h .relationship r) :
    ¬ s.provider.typing .node (heap.get h).typeName := by
  intro htype
  have hkey' : s.StandsFor heap h .node r := ⟨hkey.1, htype⟩
  obtain ⟨⟨⟩, -⟩ := hkey.unique hkey'

section Steps

variable {s t : Session} {heap : Heap} {root h : Handle} {visited : Visited} {rest : List Handle}

/-- A tracked entity stands for the key that it is tracked under. -/
theorem Grounded.relationship (hs : s.Grounded heap) {r : NativeId} {k : Handle}
    (hk : s.relationships.get? r = some k) : s.StandsFor heap k .relationship r := by
  have hk : (s.register .relationship).get? r = some k := hk
  exact hs.standsFor hk

/-! ## What is wanted -/

/-- A tracked relationship entity is wanted when a record of a reached node names it. -/
theorem Grounded.wanted_named (hs : s.Grounded heap) {n r : NativeId} {q : Record} {k : Handle}
    (hn : s.Reached heap root .node n) (hq : q ∈ s.records) (ht : q.touches n = true)
    (hr : q.relationship = some r) (hk : s.relationships.get? r = some k) :
    s.Wanted heap root k where
  known := ⟨.relationship, (hs.relationship hk).2⟩
  reached := by
    intro reg i hkey hin
    obtain ⟨rfl, rfl⟩ := (hs.relationship hk).unique hkey
    exact .named hn hq ht hr
  tracked := by
    intro i hkey hin
    obtain ⟨-, rfl⟩ := (hs.relationship hk).unique hkey
    exact hk

/-- So is the start or the end of a reached relationship entity, which is a node, whether or not it is
tracked. -/
theorem Grounded.wanted_end (hs : s.Grounded heap) {r : NativeId} {k : Handle}
    (hr : s.Reached heap root .relationship r) (hh : s.relationships.get? r = some h)
    (hk : s.EndOf heap h k) : s.Wanted heap root k where
  known := ⟨.node, hs.ends hh hk⟩
  reached := by
    intro reg i hkey hin
    have hnode : s.StandsFor heap k .node i := ⟨hkey.1, hs.ends hh hk⟩
    obtain ⟨rfl, -⟩ := hnode.unique hkey
    exact .endOf hr hh hk hkey.1 hin
  tracked := by
    intro i hkey hin
    exact absurd (hs.ends hh hk) hkey.not_node

/-! ## What has been seen -/

/-- An entity stands for no other key than the one that has been seen. -/
theorem StandsFor.mem_seen {reg reg' : Register} {id i : NativeId} {seen : Visited}
    (hkey : s.StandsFor heap h reg id) (hin : (reg, id) ∈ seen)
    (hkey' : s.StandsFor heap h reg' i) : (reg', i) ∈ seen := by
  obtain ⟨rfl, rfl⟩ := hkey.unique hkey'
  exact hin

/-- One more key: what was purged under the others, and this one. -/
theorem purged_cons {reg reg' : Register} {id i : NativeId}
    (hin : (s.register reg).contains id = true) :
    s.Purged visited reg' i ∨ only reg id reg' i ↔ s.Purged ((reg, id) :: visited) reg' i := by
  constructor
  · rintro (⟨hseen, htracked⟩ | ⟨rfl, rfl⟩)
    · exact ⟨List.mem_cons_of_mem _ hseen, htracked⟩
    · exact ⟨List.mem_cons_self, hin⟩
  · rintro ⟨hseen, htracked⟩
    rcases List.mem_cons.mp hseen with heq | hseen
    · obtain ⟨rfl, rfl⟩ := Prod.mk.inj heq
      exact .inr ⟨rfl, rfl⟩
    · exact .inl ⟨hseen, htracked⟩

/-- One more key that was not tracked: nothing more is purged. -/
theorem purged_cons_of_untracked {reg reg' : Register} {id i : NativeId}
    (hout : ¬ (s.register reg).contains id = true) :
    s.Purged visited reg' i ↔ s.Purged ((reg, id) :: visited) reg' i := by
  constructor
  · rintro ⟨hseen, htracked⟩
    exact ⟨List.mem_cons_of_mem _ hseen, htracked⟩
  · rintro ⟨hseen, htracked⟩
    refine ⟨?_, htracked⟩
    rcases List.mem_cons.mp hseen with heq | hseen
    · obtain ⟨rfl, rfl⟩ := Prod.mk.inj heq
      exact absurd htracked hout
    · exact hseen

theorem not_purged_nil {reg : Register} {i : NativeId} : ¬ s.Purged [] reg i :=
  fun h => List.not_mem_nil h.1

/-- At first nothing has been purged. -/
theorem without_purged_nil (s : Session) : s.Without (s.Purged []) s :=
  (Without.nothing s).congr fun _ _ => ⟨False.elim, not_purged_nil⟩

/-! ## One entity of the queue -/

/-- What was covered stays so, once the key of the entity has been seen. -/
theorem Covered.next {seen : Visited} {found : List Handle} {reg : Register} {i : NativeId}
    (hc : s.Covered heap visited (h :: rest) reg i) (hvisited : ∀ key ∈ visited, key ∈ seen)
    (hseen : ∀ {reg i}, s.StandsFor heap h reg i → (reg, i) ∈ seen) :
    s.Covered heap seen (rest ++ found) reg i := by
  rcases hc with hin | ⟨k, hk, hkey⟩
  · exact .inl (hvisited _ hin)
  · rcases List.mem_cons.mp hk with rfl | hk
    · exact .inl (hseen hkey)
    · exact .inr ⟨k, List.mem_append_left _ hk, hkey⟩

/-- An entity that nothing is removed for. -/
theorem Purging.skip (hp : s.Purging heap root t visited (h :: rest)) {seen : Visited}
    (hvisited : ∀ key ∈ visited, key ∈ seen)
    (hseen : ∀ {reg i}, s.StandsFor heap h reg i → (reg, i) ∈ seen)
    (hpurged : ∀ reg i, s.Purged visited reg i ↔ s.Purged seen reg i) :
    s.Purging heap root t seen (rest ++ []) where
  without := hp.without.congr hpurged
  reached hin := hp.reached ((hpurged _ _).mpr hin)
  wanted k hk := by
    rw [List.append_nil] at hk
    exact hp.wanted k (List.mem_cons_of_mem _ hk)
  root hkey := (hp.root hkey).next hvisited hseen
  named hn hq ht hr := (hp.named ((hpurged _ _).mpr hn) hq ht hr).next hvisited hseen
  ends hr hh hk hid := (hp.ends ((hpurged _ _).mpr hr) hh hk hid).next hvisited hseen

/-- An entity whose key goes, and what it puts into the queue. -/
theorem Purging.take (hp : s.Purging heap root t visited (h :: rest)) {reg : Register}
    {id : NativeId} {t' : Session} {found : List Handle} (hkey : s.StandsFor heap h reg id)
    (hin : (s.register reg).contains id = true) (hgone : t.Without (only reg id) t')
    (hfound : ∀ k ∈ found, s.Wanted heap root k)
    (hnamed : ∀ {r q}, reg = .node → q ∈ s.records → q.touches id = true →
      q.relationship = some r →
      s.Covered heap ((reg, id) :: visited) (rest ++ found) .relationship r)
    (hends : ∀ {j h' k}, reg = .relationship → s.relationships.get? id = some h' →
      s.EndOf heap h' k → (heap.get k).id = some j →
      s.Covered heap ((reg, id) :: visited) (rest ++ found) .node j) :
    s.Purging heap root t' ((reg, id) :: visited) (rest ++ found) := by
  have hvisited : ∀ key ∈ visited, key ∈ (reg, id) :: visited :=
    fun key hmem => List.mem_cons_of_mem _ hmem
  have hseen : ∀ {reg' i}, s.StandsFor heap h reg' i → (reg', i) ∈ (reg, id) :: visited :=
    fun hkey' => hkey.mem_seen List.mem_cons_self hkey'
  refine ⟨(hp.without.trans hgone).congr fun _ _ => purged_cons hin, ?_, ?_, ?_, ?_, ?_⟩
  · intro reg' i hpurged
    rcases (purged_cons hin).mpr hpurged with hold | ⟨rfl, rfl⟩
    · exact hp.reached hold
    · exact (hp.wanted h List.mem_cons_self).reached hkey hin
  · intro k hk
    rcases List.mem_append.mp hk with hk | hk
    · exact hp.wanted k (List.mem_cons_of_mem _ hk)
    · exact hfound k hk
  · exact fun hkey' => (hp.root hkey').next hvisited hseen
  · intro n r q hn hq ht hr
    rcases (purged_cons hin).mpr hn with hold | ⟨hreg, rfl⟩
    · exact (hp.named hold hq ht hr).next hvisited hseen
    · exact hnamed hreg.symm hq ht hr
  · intro r j h' k hr hh hk hid
    rcases (purged_cons hin).mpr hr with hold | ⟨hreg, rfl⟩
    · exact (hp.ends hold hh hk hid).next hvisited hseen
    · exact hends hreg.symm hh hk hid

/-- A tracked key that was not seen is tracked in the session that is left. -/
theorem Purging.contains (hp : s.Purging heap root t visited rest) {reg : Register} {i : NativeId}
    (hnew : (reg, i) ∉ visited) :
    (t.register reg).contains i = true ↔ (s.register reg).contains i = true :=
  hp.without.contains_register.trans ⟨fun h => h.1, fun h => ⟨h, fun hpurged => hnew hpurged.1⟩⟩

/-- A node goes. Of a record that touches it, the relationship entity is put into the queue, or the
record has gone before, with what that led to. -/
theorem Purging.takeNode (hs : s.Grounded heap) (hp : s.Purging heap root t visited (h :: rest))
    {id : NativeId} (hkey : s.StandsFor heap h .node id) (hin : s.nodes.contains id = true) :
    s.Purging heap root (t.purgeNode id).1 ((.node, id) :: visited)
      (rest ++ (t.purgeNode id).2) := by
  have hreached : s.Reached heap root .node id := (hp.wanted h List.mem_cons_self).reached hkey hin
  refine hp.take hkey hin (purgeNode_without t id) (fun k hk => ?_) (fun {r q} _ hq ht hr => ?_)
    (fun hreg => by cases hreg)
  · obtain ⟨q, hq, ht, r, hr, hk⟩ := mem_purgeNode_iff.mp hk
    exact hs.wanted_named hreached (hp.without.mem_records.mp hq).1 ht hr
      (hp.without.get?_relationships.mp hk).1
  · have hvisited : ∀ key ∈ visited, key ∈ (Register.node, id) :: visited :=
      fun key hmem => List.mem_cons_of_mem _ hmem
    by_cases hseen : (Register.relationship, r) ∈ visited
    · exact .inl (hvisited _ hseen)
    · by_cases hstays : q ∈ t.records
      · -- the record is still there, and so is the entity that it names
        have htracked := (hp.contains hseen).mpr (hs.backed q hq r hr)
        obtain ⟨k, hk⟩ := Option.isSome_iff_exists.mp htracked
        have hmem : k ∈ (t.purgeNode id).2 := mem_purgeNode_iff.mpr ⟨q, hstays, ht, r, hr, hk⟩
        exact .inr ⟨k, List.mem_append_right _ hmem,
          hs.relationship (hp.without.get?_register.mp hk).1⟩
      · have hhangs : q.HangsOn (s.Purged visited) :=
          Classical.not_not.mp fun hno => hstays (hp.without.mem_records.mpr ⟨hq, hno⟩)
        rcases hhangs with ⟨n, hn, htn⟩ | ⟨r', hr', hqr⟩
        · refine (hp.named hn hq htn hr).next hvisited fun hkey' => ?_
          exact hkey.mem_seen List.mem_cons_self hkey'
        · obtain rfl := Option.some.inj (hr.symm.trans hqr)
          exact absurd hr'.1 hseen

/-- A relationship entity goes, and its ends are put into the queue. -/
theorem Purging.takeRelationship (hs : s.Grounded heap)
    (hp : s.Purging heap root t visited (h :: rest)) {id : NativeId} {start stop : Option Handle}
    (hkey : s.StandsFor heap h .relationship id) (hin : s.relationships.contains id = true)
    (hin' : t.relationships.contains id = true)
    (hends : s.endpoints (heap.get h) = .ok (start, stop)) :
    s.Purging heap root (t.forgetRelationship id) ((.relationship, id) :: visited)
      (rest ++ (start.toList ++ stop.toList)) := by
  have hreached : s.Reached heap root .relationship id :=
    (hp.wanted h List.mem_cons_self).reached hkey hin
  have hh : s.relationships.get? id = some h := (hp.wanted h List.mem_cons_self).tracked hkey hin
  have hfound : ∀ k, k ∈ start.toList ++ stop.toList ↔ s.EndOf heap h k := by
    intro k
    rw [List.mem_append, Option.mem_toList, Option.mem_toList, endOf_iff hends]
  refine hp.take hkey hin (forgetRelationship_without hin') (fun k hk => ?_)
    (fun hreg => by cases hreg) (fun {j h' k} _ hh' hk hid => ?_)
  · exact hs.wanted_end hreached hh ((hfound k).mp hk)
  · obtain rfl := Option.some.inj (hh.symm.trans hh')
    exact .inr ⟨k, List.mem_append_right _ ((hfound k).mpr hk), hid, hs.ends hh hk⟩

/-- Every step that a purge goes on after. -/
theorem Purging.step (hs : s.Grounded heap) (hp : s.Purging heap root t visited (h :: rest))
    {t' : Session} {found : List Handle} {seen : Visited}
    (hstep : t.PurgeStep heap visited h ⟨t', .ok (found, seen)⟩) :
    s.Purging heap root t' seen (rest ++ found) := by
  have hprovider := hp.without.provider
  cases hstep with
  | noId hid =>
    refine hp.skip (fun _ hmem => hmem) (fun {reg i} hkey => ?_) (fun _ _ => Iff.rfl)
    rw [hkey.1] at hid
    cases hid
  | @seen reg id hkey hin =>
    refine hp.skip (fun _ hmem => hmem) (fun hkey' => ?_) (fun _ _ => Iff.rfl)
    exact ((standsFor_congr hprovider).mp hkey).mem_seen hin hkey'
  | @untracked reg id hkey hnew hnone =>
    have hout : ¬ (s.register reg).contains id = true := by
      rw [← hp.contains hnew, hnone]
      exact Bool.false_ne_true
    refine hp.skip (fun _ hmem => List.mem_cons_of_mem _ hmem) (fun hkey' => ?_)
      (fun _ _ => purged_cons_of_untracked hout)
    exact ((standsFor_congr hprovider).mp hkey).mem_seen List.mem_cons_self hkey'
  | node hkey hnew hin =>
    exact hp.takeNode hs ((standsFor_congr hprovider).mp hkey) ((hp.contains hnew).mp hin)
  | relationship hkey hnew hin hends =>
    rw [endpoints_congr hprovider] at hends
    exact hp.takeRelationship hs ((standsFor_congr hprovider).mp hkey) ((hp.contains hnew).mp hin)
      hin hends

/-- No step fails: every type in the queue is known, and every relationship entity has ends. -/
theorem Purging.no_error (hs : s.Grounded heap) (hp : s.Purging heap root t visited (h :: rest))
    {t' : Session} {e : Error} (hstep : t.PurgeStep heap visited h ⟨t', .error e⟩) : False := by
  have hprovider := hp.without.provider
  cases hstep with
  | unknown hid htype =>
    obtain ⟨reg, hreg⟩ := (hp.wanted h List.mem_cons_self).known
    rw [hprovider] at htype
    exact nomatch htype.symm.trans hreg
  | @endless id _ hkey hnew hin hends =>
    have htracked := (hp.wanted h List.mem_cons_self).tracked ((standsFor_congr hprovider).mp hkey)
      ((hp.contains hnew).mp hin)
    obtain ⟨start, stop, hok⟩ := hs.ended htracked
    rw [endpoints_congr hprovider] at hends
    exact nomatch hends.symm.trans hok

/-! ## The whole purge -/

/-- With an empty queue, what was seen is closed under all that leads on. -/
theorem Purging.purged_of_reached (hs : s.Grounded heap) (hp : s.Purging heap root t visited [])
    {reg : Register} {i : NativeId} (hr : s.Reached heap root reg i) : s.Purged visited reg i := by
  have hseen : ∀ {reg i}, s.Covered heap visited [] reg i → (reg, i) ∈ visited := by
    rintro reg i (hin | ⟨k, hk, -⟩)
    · exact hin
    · exact absurd hk List.not_mem_nil
  induction hr with
  | root hkey hin => exact ⟨hseen (hp.root hkey), hin⟩
  | named _ hq ht hr ih => exact ⟨hseen (hp.named ih hq ht hr), hs.backed _ hq _ hr⟩
  | endOf _ hh hk hid hin ih => exact ⟨hseen (hp.ends ih hh hk hid), hin⟩

/-- A purge succeeds, and what goes is what is reached. -/
theorem Grounded.purge (hs : s.Grounded heap) (hroot : s.Wanted heap root root) :
    ∃ t, s.purge heap root = ⟨t, .ok ()⟩ ∧ s.Without (s.Reached heap root) t := by
  refine purgeAll_induction (P := s.Purging heap root)
    (Q := fun o => ∃ t, o = ⟨t, .ok ()⟩ ∧ s.Without (s.Reached heap root) t) ?_ ?_ ?_ ?_
  · intro t visited hp
    exact ⟨t, rfl, hp.without.congr fun reg i => ⟨hp.reached, hp.purged_of_reached hs⟩⟩
  · intro t visited h rest t' e hp hstep
    exact (hp.no_error hs hstep).elim
  · intro t visited h rest t' found seen hp hstep
    exact hp.step hs hstep
  · refine ⟨without_purged_nil s, ?_, ?_, ?_, ?_, ?_⟩
    · exact fun h => absurd h not_purged_nil
    · intro h hh
      obtain rfl := List.mem_singleton.mp hh
      exact hroot
    · exact fun hkey => .inr ⟨root, List.mem_cons_self, hkey⟩
    · exact fun hn _ _ _ => absurd hn not_purged_nil
    · exact fun hr _ _ _ => absurd hr not_purged_nil

/-! ## The order of the records -/

/-- What is reached depends on which records there are, and not on their order. -/
theorem Reached.reorder {records order : RecordSet} (horder : ∀ q ∈ records, q ∈ order)
    {reg : Register} {i : NativeId}
    (hr : ({ s with records := records }).Reached heap root reg i) :
    ({ s with records := order }).Reached heap root reg i := by
  induction hr with
  | root hkey hin => exact .root hkey hin
  | named _ hq ht hr ih => exact .named ih (horder _ hq) ht hr
  | endOf _ hh hk hid hin ih => exact .endOf ih hh hk hid hin

theorem Wanted.reorder {h' : Handle} (h : s.Wanted heap root h') {order : RecordSet}
    (horder : ∀ q, q ∈ order ↔ q ∈ s.records) :
    ({ s with records := order }).Wanted heap root h' where
  known := h.known
  reached hkey hin := (h.reached hkey hin).reorder fun q hq => (horder q).mpr hq
  tracked := h.tracked

theorem Grounded.reorder (hs : s.Grounded heap) {order : RecordSet}
    (horder : ∀ q, q ∈ order ↔ q ∈ s.records) : ({ s with records := order }).Grounded heap where
  standsFor {reg i h} hk := by
    have hk : (s.register reg).get? i = some h := by cases reg <;> exact hk
    exact hs.standsFor hk
  backed q hq := hs.backed q ((horder q).mp hq)
  ended := hs.ended
  ends := hs.ends

/-- In whichever order the records are gone through, the same goes. -/
theorem Grounded.purge_reordered (hs : s.Grounded heap) (hroot : s.Wanted heap root root)
    {order : RecordSet} (horder : ∀ q, q ∈ order ↔ q ∈ s.records) :
    ∃ t, ({ s with records := order }).purge heap root = ⟨t, .ok ()⟩ ∧
      s.Without (s.Reached heap root) t := by
  obtain ⟨t, hpurge, hwithout⟩ := (hs.reorder horder).purge (hroot.reorder horder)
  have hreached : ∀ reg i, ({ s with records := order }).Reached heap root reg i ↔
      s.Reached heap root reg i :=
    fun reg i => ⟨Reached.reorder fun q hq => (horder q).mp hq,
      Reached.reorder fun q hq => (horder q).mpr hq⟩
  have hwithout := hwithout.congr hreached
  refine ⟨t, hpurge, { hwithout with get?_register := ?_, mem_records := ?_ }⟩
  · intro reg i k
    have hregister : (t.register reg).get? i = some k ↔
        (({ s with records := order }).register reg).get? i = some k ∧
          ¬ s.Reached heap root reg i := hwithout.get?_register
    cases reg <;> exact hregister
  · intro q
    rw [hwithout.mem_records]
    exact and_congr_left fun _ => horder q

end Steps

end ObjectGraph.Session

namespace ObjectGraph.World

open Session

/-- A relationship type has ends. -/
theorem endpoints_of_typing {m : Schema.Domain} {s : Session} (hp : s.provider = m.provider)
    {e : Entity} (htype : m.typing .relationship e.typeName) :
    ∃ start stop, s.endpoints e = .ok (start, stop) := by
  obtain ⟨info, hinfo, hkind⟩ := htype
  have htypeInfo : s.provider.typeInfo e.typeName = .ok info := by
    rw [hp]
    show m.typeInfo e.typeName = .ok info
    rw [Schema.Domain.typeInfo, hinfo]
  cases hrole : info.role with
  | relationship startField endField =>
    refine ⟨e.references.get? startField, e.references.get? endField, ?_⟩
    simp [Session.endpoints, Schema.Provider.startField, Schema.Provider.endField, htypeInfo,
      Except.bind, Schema.TypeInfo.startField, Schema.TypeInfo.endField, hrole,
      Schema.Provider.orNotARelationship, Field.readReference]
  | node => simp [Schema.TypeInfo.kind, hrole, Schema.Role.kind, Register.kind] at hkind
  | interface => simp [Schema.TypeInfo.kind, hrole, Schema.Role.kind, Register.kind] at hkind

/-- Where what is tracked keeps to the types of a domain, a session is grounded as soon as its records
are backed and the ends of its relationship entities are nodes. -/
theorem grounded {m : Schema.Domain} {w : World} (hp : w.session.provider = m.provider)
    (hholds : m.typing.Holds w) (hbacked : w.session.Backed)
    (hends : ∀ r h k, w.session.relationships.get? r = some h → w.session.EndOf w.heap h k →
      m.typing .node (w.heap.get k).typeName) : w.session.Grounded w.heap := by
  have hsound : m.typing.BorneOut w.session.provider := by
    rw [hp]
    exact m.typing_borneOut
  refine ⟨fun hk => hholds.standsFor hsound hk, hbacked, ?_, ?_⟩
  · intro r h hk
    have hk : (w.session.register .relationship).get? r = some h := hk
    exact endpoints_of_typing hp (hholds _ _ _ hk).2
  · intro r h k hh hk
    exact hsound _ _ (hends r h k hh hk)

/-- The root of a purge is wanted if it is of a node type, or a tracked relationship entity. -/
theorem wanted_root {m : Schema.Domain} {w : World} (hp : w.session.provider = m.provider)
    (hs : w.session.Grounded w.heap) {e : Handle}
    (he : m.typing .node (w.heap.get e).typeName ∨ ∃ r, w.session.relationships.get? r = some e) :
    w.session.Wanted w.heap e e := by
  rcases he with hnode | ⟨r, hr⟩
  · have htype : w.session.provider.typing .node (w.heap.get e).typeName := by
      rw [hp]
      exact m.typing_borneOut _ _ hnode
    exact ⟨⟨.node, htype⟩, .root, fun hkey _ => absurd htype hkey.not_node⟩
  · have hkey := hs.relationship hr
    refine ⟨⟨.relationship, hkey.2⟩, .root, fun hkey' _ => ?_⟩
    obtain ⟨-, rfl⟩ := hkey.unique hkey'
    exact hr

/-- **A purge takes exactly what hangs together with its entity.** Callers have kept to the declared
types and to the ids, and the starts and ends of the tracked relationship entities are of node types.
Then purging an entity of a node type, or a tracked relationship entity, succeeds, in whichever order
the records are gone through, and leaves the session without the keys that are reached from the
entity: their entries and index entries, and the records that hang on them, and nothing else. -/
theorem run_purge_reached (m : Schema.Domain) (heap : Heap) (config : Config) (ops : List Operation)
    (hops : (start heap m.provider config).Follows m.typing.Allows ops) :
    let w := (start heap m.provider config).run ops
    (∀ r h k, w.session.relationships.get? r = some h → w.session.EndOf w.heap h k →
      m.typing .node (w.heap.get k).typeName) →
    ∀ e, m.typing .node (w.heap.get e).typeName ∨ (∃ r, w.session.relationships.get? r = some e) →
    ∀ order : RecordSet, (∀ q, q ∈ order ↔ q ∈ w.session.records) →
    ∃ t, ({ w.session with records := order }).purge w.heap e = ⟨t, .ok ()⟩ ∧
      w.session.Without (w.session.Reached w.heap e) t := by
  intro w hends e he order horder
  have hp : w.session.provider = m.provider := provider_run (start heap m.provider config) ops
  have hholds : m.typing.Holds w := Typing.holds_run m.typing_borneOut hops
  have hbacked : w.session.Backed := run_backed heap m.provider config ops
  have hs : w.session.Grounded w.heap := grounded hp hholds hbacked hends
  exact hs.purge_reordered (wanted_root hp hs he) horder

/-- The second person goes with the first, by the acquaintance. -/
theorem purge_acquainted :
    let w := (start twoPersons acquaintance.provider .standard).run acquainted
    w.session.Reached w.heap ⟨0⟩ .node 2 ∧
      ∃ t, w.session.purge w.heap ⟨0⟩ = ⟨t, .ok ()⟩ ∧
        w.session.Without (w.session.Reached w.heap ⟨0⟩) t := by
  intro w
  have hheap : w.heap = twoPersons := rfl
  have htracked : ∀ r h, w.session.relationships.get? r = some h → h = ⟨2⟩ := by
    intro r h hh
    have hh : (Table.empty.insert 5 ⟨2⟩).get? r = some h := hh
    rw [Table.get?_insert] at hh
    split at hh
    · exact (Option.some.inj hh).symm
    · cases hh
  have hends : w.session.endpoints (w.heap.get ⟨2⟩) = .ok (some ⟨0⟩, some ⟨1⟩) := rfl
  have hroot : w.session.Reached w.heap ⟨0⟩ .node 1 := .root ⟨rfl, rfl⟩ rfl
  have hknows : w.session.Reached w.heap ⟨0⟩ .relationship 5 :=
    .named (q := knows) hroot (by decide) rfl rfl
  refine ⟨.endOf (h := ⟨2⟩) (k := ⟨1⟩) hknows rfl ⟨_, _, hends, .inr rfl⟩ rfl rfl, ?_⟩
  refine run_purge_reached acquaintance twoPersons .standard acquainted acquainted_follows ?_ ⟨0⟩
    (.inl person_typing) w.session.records (fun _ => Iff.rfl)
  rintro r h k hh ⟨start, stop, hends', hk⟩
  obtain rfl := htracked r h hh
  obtain ⟨rfl, rfl⟩ := Prod.mk.inj (Except.ok.inj (hends.symm.trans hends'))
  rcases hk with hk | hk <;> obtain rfl := Option.some.inj hk <;> exact person_typing

end ObjectGraph.World
