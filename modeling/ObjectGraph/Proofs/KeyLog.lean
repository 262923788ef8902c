import ObjectGraph.Proofs.IndexCoherence
import ObjectGraph.Proofs.Discipline
import ObjectGraph.Proofs.Inheritance

/-!
# The log of keys

What a lookup by key finds depends on the history of the session: who was registered under the key, in
which order, and who has been removed since. The history is kept here as a plain list (`World.keyLog`).
An operation that puts a node into its register writes an entry at the end, if the node has a key at
that moment and no entry has the same key and type; an entry goes when its id leaves the register, and
when its id is registered anew. How the index of a session is held plays no part in it.

The index mirrors the log (`Session.Mirrors`): under each key it lists the entries with that key, in
the order of the log. So the answers to lookups can be read off the log.
-/

set_option autoImplicit false

namespace ObjectGraph

open Schema

/-- A node that was registered with a key. -/
structure KeyEntry where
  key : Key
  typeName : TypeName
  id : NativeId
  object : Handle
deriving DecidableEq, Repr

/-- The key that an entity has at present: what the property of its primary index holds, as far as
that can serve as a key. -/
def Schema.Domain.keyOf (m : Domain) (e : Entity) : Option Key :=
  (m.get? e.typeName).bind fun t => t.indexField.bind fun field =>
    (field.read e).bind fun v => (Key.ofValue v).toOption

/-- The log with one more entry at its end, unless the key is taken for the type. -/
def KeyEntry.enter (log : List KeyEntry) (e : KeyEntry) : List KeyEntry :=
  if log.any fun f => f.key = e.key && f.typeName = e.typeName then log else log ++ [e]

namespace World

/-- The id and the object that an operation puts into the register of nodes. -/
def inserted (w : World) : Operation → Option (NativeId × Handle)
  | .registerNode h => (w.heap.get h).id.bind fun id =>
    if !w.session.nodes.contains id && (w.after (.registerNode h)).session.nodes.contains id then
      some (id, h)
    else none
  | .replaceNode h => (w.heap.get h).id.bind fun id =>
    if (w.after (.replaceNode h)).session.nodes.contains id then some (id, h) else none
  | _ => none

/-- The log after an operation: without the entries whose id has left the register or has been
registered anew, and with an entry for a node that has been inserted with a key. Clearing the session
leaves no id in the register, and so no entry. -/
def logAfter (m : Domain) (w : World) (op : Operation) (log : List KeyEntry) : List KeyEntry :=
  let stays := log.filter fun e => (w.after op).session.nodes.contains e.id
  match w.inserted op with
  | none => stays
  | some (id, h) =>
    let others := stays.filter fun e => e.id ≠ id
    match m.keyOf (w.heap.get h) with
    | none => others
    | some key => KeyEntry.enter others ⟨key, (w.heap.get h).typeName, id, h⟩

/-- The log after a run. -/
def keyLog (m : Domain) (w : World) (log : List KeyEntry) : List Operation → List KeyEntry
  | [] => log
  | op :: rest => keyLog m (w.after op) (w.logAfter m op log) rest

end World

namespace Session

/-- Under each key the index lists the entries of the log with that key, each under the claim of its
id, and their types are declared. -/
structure Mirrors (s : Session) (m : Domain) (log : List KeyEntry) : Prop where
  coherent : s.IndexCoherent
  indexed : ∀ key : Key,
    s.indexed key = (log.filter fun e => e.key = key).map fun e => (e.typeName, e.object)
  claimed : ∀ e ∈ log, s.indexedKeys.get? e.id = some (e.key, e.typeName)
  declared : ∀ e ∈ log, m.contains e.typeName = true

namespace Mirrors

variable {s t : Session} {m : Domain} {log : List KeyEntry}

/-- Only three registers matter. -/
theorem congr (hs : s.Mirrors m log) (hn : t.nodes = s.nodes) (hp : t.primaryIndex = s.primaryIndex)
    (hk : t.indexedKeys = s.indexedKeys) : t.Mirrors m log where
  coherent := hs.coherent.congr hn hp hk
  indexed key := by
    rw [Session.indexed, hp]
    exact hs.indexed key
  claimed := by
    rw [hk]
    exact hs.claimed
  declared := hs.declared

theorem fresh (provider : Provider) (config : Config) (m : Domain) :
    (Session.fresh provider config).Mirrors m [] :=
  ⟨.fresh provider config, fun _ => rfl, nofun, nofun⟩

/-- The id of an entry is tracked. -/
theorem tracked (hs : s.Mirrors m log) {e : KeyEntry} (he : e ∈ log) :
    s.nodes.contains e.id = true := by
  obtain ⟨h, hh, -⟩ := hs.coherent.borne (hs.claimed e he)
  exact Option.isSome_iff_exists.mpr ⟨h, hh⟩

/-- An entry is under the key and the type that an id claims only if it is of that id. -/
theorem id_of_claim (hs : s.Mirrors m log) {e : KeyEntry} (he : e ∈ log) {id : NativeId}
    (hid : s.indexedKeys.get? id = some (e.key, e.typeName)) : e.id = id := by
  obtain ⟨h, -, hh⟩ := hs.coherent.borne hid
  obtain ⟨i, -, hone⟩ := hs.coherent.claimed hh
  rw [hone _ (hs.claimed e he), hone id hid]

/-! ## Losses -/

theorem dropNode (hs : s.Mirrors m log) (id : NativeId) :
    (s.dropNode id).Mirrors m (log.filter fun e => e.id ≠ id) where
  coherent := hs.coherent.dropNode id
  indexed key := by
    rw [indexed_dropNode, hs.indexed, List.filter_map, List.filter_filter, List.filter_filter]
    refine congrArg (List.map _) (List.filter_congr fun e he => ?_)
    -- among the entries under the key, the id claims its own
    by_cases hkey : e.key = key
    · subst hkey
      have hown : s.indexedKeys.get? id = some (e.key, e.typeName) ↔ e.id = id :=
        ⟨hs.id_of_claim he, fun hid => hid ▸ hs.claimed e he⟩
      simp [hown]
    · simp [hkey]
  claimed e he := by
    obtain ⟨he, hid⟩ := List.mem_filter.mp he
    rw [get?_indexedKeys_dropNode, if_neg (of_decide_eq_true hid)]
    exact hs.claimed e he
  declared e he := hs.declared e (List.mem_filter.mp he).1

/-- What is left of a session mirrors what is left of the log. -/
theorem shrinks (hs : s.Mirrors m log) (h : s.Shrinks t) :
    t.Mirrors m (log.filter fun e => t.nodes.contains e.id) := by
  refine h.keeps (P := fun u => u.Mirrors m (log.filter fun e => u.nodes.contains e.id)) ?_ ?_
  · intro u v hl hu
    have hdrop : ∀ id, (log.filter fun e => (u.nodes.erase id).contains e.id) =
        (log.filter fun e => u.nodes.contains e.id).filter fun e => e.id ≠ id := by
      intro id
      rw [List.filter_filter]
      refine List.filter_congr fun e _ => ?_
      rw [Table.contains, Table.get?_erase, Table.contains]
      by_cases hid : e.id = id <;> simp [hid]
    cases hl with
    | node id =>
      rw [nodes_dropNode, hdrop]
      exact hu.dropNode id
    | purgedNode id =>
      have hnodes : (u.purgeNode id).1.nodes = u.nodes.erase id := nodes_dropNode u id
      rw [hnodes, hdrop]
      exact (hu.dropNode id).congr rfl rfl rfl
    | relationship id =>
      rw [nodes_forgetRelationship]
      exact hu.congr (by simp) (by simp) (by simp)
    | record r => exact hu.congr rfl rfl rfl
  · rwa [List.filter_eq_self.mpr fun e he => hs.tracked he]

/-! ## Admission -/

/-- A key is free for a type exactly when no entry has them. -/
theorem indexedAt?_eq_none_iff (hs : s.Mirrors m log) {key : Key} {name : TypeName} :
    s.indexedAt? key name = none ↔ ∀ e ∈ log, e.key = key → e.typeName ≠ name := by
  rw [Option.eq_none_iff_forall_ne_some]
  simp only [ne_eq, indexedAt?_eq_some_iff, hs.indexed, List.mem_map, List.mem_filter,
    decide_eq_true_iff, Prod.mk.injEq, not_exists, not_and]
  exact ⟨fun h e he hkey hname => h e.object e ⟨he, hkey⟩ hname rfl,
    fun h k e he hname _ => h e he.1 he.2 hname⟩

theorem indexNode (hs : s.Mirrors m log) {id : NativeId} {h : Handle} {name : TypeName} {key : Key}
    (hin : s.nodes.get? id = some h) (hno : s.indexedKeys.get? id = none)
    (hname : m.contains name = true) :
    (s.indexNode id name key h).Mirrors m (KeyEntry.enter log ⟨key, name, id, h⟩) := by
  have hcoherent := hs.coherent.indexNode hin hno name key
  unfold KeyEntry.enter
  cases he : s.indexedAt? key name with
  | some k =>
    rw [indexNode_of_taken he]
    have htaken : ¬ ∀ e ∈ log, e.key = key → e.typeName ≠ name := by
      rw [← hs.indexedAt?_eq_none_iff, he]
      nofun
    rw [if_pos]
    · exact hs
    · simpa using htaken
  | none =>
    have hfree := hs.indexedAt?_eq_none_iff.mp he
    rw [if_neg (by simpa using hfree)]
    refine ⟨hcoherent, fun j => ?_, fun e hmem => ?_, fun e hmem => ?_⟩
    · rw [indexed_indexNode_of_free he, hs.indexed, hs.indexed, List.filter_append, List.map_append]
      by_cases hj : j = key
      · simp [hj]
      · simp [hj, Ne.symm hj]
    · rw [get?_indexedKeys_indexNode_of_free he]
      rcases List.mem_append.mp hmem with hold | hnew
      · have hne : e.id ≠ id := by
          intro hid
          have hclaim := hs.claimed e hold
          rw [hid, hno] at hclaim
          cases hclaim
        rw [if_neg hne]
        exact hs.claimed e hold
      · obtain rfl := List.mem_singleton.mp hnew
        exact if_pos rfl
    · rcases List.mem_append.mp hmem with hold | hnew
      · exact hs.declared e hold
      · obtain rfl := List.mem_singleton.mp hnew
        exact hname

/-- A node that is admitted gets an entry if it has a key. -/
theorem admitNode (hs : s.Mirrors m log) {heap : Heap} {h : Handle} {id : NativeId}
    (hfree : s.nodes.get? id = none) (hdeclared : m.contains (heap.get h).typeName = true)
    (key : Option Key) :
    (s.admitNode heap h id key).Mirrors m
      (match key with
        | none => log
        | some key => KeyEntry.enter log ⟨key, (heap.get h).typeName, id, h⟩) := by
  have hno := hs.coherent.unclaimed hfree
  have htracked : (s.admitNode heap h id none).Mirrors m log :=
    ⟨hs.coherent.admitNode hfree heap h none, hs.indexed, hs.claimed, hs.declared⟩
  cases key with
  | none => exact htracked
  | some key =>
    have hin : (s.admitNode heap h id none).nodes.get? id = some h := by
      rw [nodes_admitNode, Table.get?_insert, if_pos rfl]
    exact htracked.indexNode hin hno hdeclared

end Mirrors

/-- A session computes the key that an entity has, unless it refuses the entity; it refuses those whose
type is not declared. -/
theorem primaryKey_eq {s : Session} {m : Domain} (hp : s.provider = m.provider) {e : Entity}
    {key : Option Key} (hkey : s.primaryKey e = .ok key) :
    m.contains e.typeName = true ∧ key = m.keyOf e := by
  unfold primaryKey at hkey
  cases ht : m.get? e.typeName with
  | none =>
    have hfield : s.provider.indexField e.typeName = .error (.unknownType e.typeName) :=
      hp ▸ Domain.map_typeInfo_of_undeclared (Table.contains_eq_false_iff.mpr ht) _
    rw [hfield] at hkey
    cases hkey
  | some t =>
    have hfield : s.provider.indexField e.typeName = .ok t.indexField :=
      hp ▸ Domain.map_typeInfo ht _
    refine ⟨Option.isSome_iff_exists.mpr ⟨t, ht⟩, ?_⟩
    rw [hfield] at hkey
    rw [Domain.keyOf, ht, Option.bind_some]
    cases hindex : t.indexField with
    | none =>
      rw [hindex] at hkey
      exact (Except.ok.inj hkey).symm
    | some field =>
      rw [hindex] at hkey
      rw [Option.bind_some]
      dsimp only at hkey
      split at hkey
      next hread =>
        rw [hread]
        exact (Except.ok.inj hkey).symm
      next hread =>
        rw [hread]
        exact (Except.ok.inj hkey).symm
      next v _ hread =>
        rw [hread, Option.bind_some]
        split at hkey
        next k hk =>
          rw [hk]
          exact (Except.ok.inj hkey).symm
        next hk =>
          split at hkey
          · cases hkey
          · rw [hk]
            exact (Except.ok.inj hkey).symm

/-! ## Lookups -/

/-- Of indexed nodes of declared types the first that may be used as the target is found, without an
error. -/
theorem firstAssignable_eq_find? {s : Session} {m : Domain} (hp : s.provider = m.provider)
    {target : TypeName} {entries : List (TypeName × Handle)}
    (hdeclared : ∀ e ∈ entries, m.contains e.1 = true) :
    s.firstAssignable target entries =
      .ok ((entries.find? fun e => m.assignable e.1 target).map Prod.snd) := by
  induction entries with
  | nil => rfl
  | cons e rest ih =>
    obtain ⟨name, h⟩ := e
    have hanswer := Domain.isAssignable_provider (hdeclared _ List.mem_cons_self) target
    rw [← hp] at hanswer
    have hrest := ih fun e he => hdeclared e (List.mem_cons_of_mem _ he)
    rw [firstAssignable, hanswer, List.find?_cons]
    cases m.assignable name target with
    | true => rfl
    | false => exact hrest

namespace Mirrors

variable {s : Session} {m : Domain} {log : List KeyEntry}

/-- The first node under a key is that of the first entry with the key. -/
theorem firstIndexed (hs : s.Mirrors m log) (key : Key) :
    s.firstIndexed key = (log.find? fun e => e.key = key).map KeyEntry.object := by
  rw [firstIndexed_eq, hs.indexed, List.map_map, List.head?_map, List.head?_filter]
  rfl

/-- The node of a type under a key is that of the first entry with the key and a type to fit. -/
theorem lookupNodeByKey (hs : s.Mirrors m log) (hp : s.provider = m.provider) (target : TypeName)
    (key : Key) : s.lookupNodeByKey target key =
      .ok ((log.find? fun e => e.key = key && m.assignable e.typeName target).map
        KeyEntry.object) := by
  have hdeclared : ∀ e ∈ s.indexed key, m.contains e.1 = true := by
    intro e he
    rw [hs.indexed] at he
    obtain ⟨f, hf, rfl⟩ := List.mem_map.mp he
    exact hs.declared f (List.mem_filter.mp hf).1
  rw [lookupNodeByKey_eq, firstAssignable_eq_find? hp hdeclared, hs.indexed, List.find?_map,
    List.find?_filter, Option.map_map]
  simp only [Function.comp_def, Bool.decide_and, Bool.decide_eq_true]

end Mirrors

end Session

namespace World

open Session

/-! ## Every run -/

theorem inserted_of_admitted {w : World} {op : Operation} {h : Handle} {id : NativeId}
    {key : Option Key} {t : Session}
    (hop : op = .registerNode h ∧ t = w.session ∨ op = .replaceNode h ∧ t = w.session.dropNode id)
    (hid : (w.heap.get h).id = some id) (hfree : t.nodes.get? id = none)
    (hafter : (w.after op).session = t.admitNode w.heap h id key) :
    w.inserted op = some (id, h) := by
  have hin : (w.after op).session.nodes.contains id = true := by
    rw [hafter, nodes_admitNode, Table.contains, Table.get?_insert, if_pos rfl]
    rfl
  rcases hop with ⟨rfl, rfl⟩ | ⟨rfl, rfl⟩
  · simp [inserted, hid, hin, Table.contains_eq_false_iff.mpr hfree]
  · simp [inserted, hid, hin]

/-- An operation that registers no node takes nodes from the register at most. -/
theorem Effect.mirrors {m : Domain} {w v : World} {op : Operation} (he : w.Effect op v)
    (hop : ∀ h, op ≠ .registerNode h ∧ op ≠ .replaceNode h) {log : List KeyEntry}
    (hw : w.session.Mirrors m log) :
    v.session.Mirrors m (log.filter fun e => v.session.nodes.contains e.id) := by
  have hall : (log.filter fun e => w.session.nodes.contains e.id) = log :=
    List.filter_eq_self.mpr fun e he => hw.tracked he
  cases he with
  | created | edited => rwa [hall]
  | shrunk hs => exact hw.shrinks hs
  | reset h hp => exact hw.shrinks (shrinks_of_purge hp)
  | @admittedNode _ h id key t hadmits =>
    rcases hadmits with ⟨hregister, -⟩ | ⟨hreplace, -⟩
    · exact absurd hregister (hop h).1
    · exact absurd hreplace (hop h).2
  | @admittedRelationship _ h id t ht =>
    have hnodes : (t.admitRelationship w.heap h id).nodes = w.session.nodes := by
      rcases ht with ⟨-, rfl, -⟩ | ⟨-, rfl⟩ <;> rfl
    rw [hnodes, hall]
    rcases ht with ⟨-, rfl, -⟩ | ⟨-, rfl⟩ <;> exact hw.congr rfl rfl rfl
  | recorded r => exact (hall.symm ▸ hw).congr rfl rfl rfl
  | cleared =>
    have hnone : (log.filter fun e => w.session.clear.nodes.contains e.id) = [] :=
      List.filter_eq_nil_iff.mpr fun _ _ => Bool.false_ne_true
    rw [hnone]
    exact .fresh _ _ m
  | tracked tracker => exact (hall.symm ▸ hw).congr rfl rfl rfl

/-- An operation that registers a node writes the entry that the index gets. -/
theorem mirrors_after_admission {m : Domain} {w : World} (hp : w.session.provider = m.provider)
    {log : List KeyEntry} (hw : w.session.Mirrors m log) {op : Operation} {h : Handle}
    {id : NativeId} {key : Option Key} {t : Session}
    (hop : op = .registerNode h ∧ t = w.session ∨ op = .replaceNode h ∧ t = w.session.dropNode id)
    (hid : (w.heap.get h).id = some id) (hfree : t.nodes.get? id = none)
    (hkey : t.primaryKey (w.heap.get h) = .ok key)
    (hafter : (w.after op).session = t.admitNode w.heap h id key) :
    (w.after op).session.Mirrors m (w.logAfter m op log) := by
  have ht : w.session.Shrinks t := by
    rcases hop with ⟨-, rfl⟩ | ⟨-, rfl⟩
    · exact .refl _
    · exact .of_loses (.node id)
  have hothers : (log.filter fun e => (w.after op).session.nodes.contains e.id).filter
      (fun e => e.id ≠ id) = log.filter fun e => t.nodes.contains e.id := by
    rw [List.filter_filter]
    refine List.filter_congr fun e _ => ?_
    rw [hafter, nodes_admitNode, Table.contains, Table.get?_insert, Table.contains]
    by_cases hii : e.id = id
    · simp [hii, hfree]
    · simp [hii]
  obtain ⟨hdeclared, rfl⟩ := primaryKey_eq (ht.provider.trans hp) hkey
  have hadmitted := (hw.shrinks ht).admitNode hfree hdeclared (m.keyOf (w.heap.get h))
  rw [logAfter, inserted_of_admitted hop hid hfree hafter]
  dsimp only
  rw [hothers, hafter]
  cases hk : m.keyOf (w.heap.get h) with
  | none =>
    rw [hk] at hadmitted
    exact hadmitted
  | some k =>
    rw [hk] at hadmitted
    exact hadmitted

/-- What mirrored the log before an operation mirrors it afterwards. -/
theorem mirrors_after {m : Domain} {w : World} (hp : w.session.provider = m.provider)
    {log : List KeyEntry} (hw : w.session.Mirrors m log) (op : Operation) :
    (w.after op).session.Mirrors m (w.logAfter m op log) := by
  cases op with
  | registerNode h =>
    rcases registerNode_cases w.session w.heap h with hs | ⟨id, key, hid, hfree, hkey, hs⟩
    · have hafter : (w.after (.registerNode h)).session = w.session := hs
      have hnone : w.inserted (.registerNode h) = none := by
        simp [inserted, hafter]
      rw [logAfter, hnone, hafter]
      exact hw.shrinks (.refl _)
    · exact mirrors_after_admission hp hw (.inl ⟨rfl, rfl⟩) hid hfree hkey hs
  | replaceNode h =>
    have hshrinks := dropNodeOf_shrinks w.session (w.heap.get h)
    rcases registerNode_cases (w.session.dropNodeOf (w.heap.get h)) w.heap h with
      hs | ⟨id, key, hid, hfree, hkey, hs⟩
    · have hafter : (w.after (.replaceNode h)).session = w.session.dropNodeOf (w.heap.get h) := hs
      have hnone : w.inserted (.replaceNode h) = none := by
        cases hid : (w.heap.get h).id with
        | none => simp [inserted, hid]
        | some id => simp [inserted, hid, hafter, dropNodeOf_of_id w.session hid, Table.contains]
      rw [logAfter, hnone, hafter]
      exact hw.shrinks hshrinks
    · exact mirrors_after_admission hp hw (.inr ⟨rfl, dropNodeOf_of_id w.session hid⟩) hid hfree
        hkey hs
  | _ =>
    -- nothing is inserted, so the entries that stay are all there are
    refine (w.effect _).mirrors (fun h => ⟨?_, ?_⟩) hw
    · rintro ⟨⟩
    · rintro ⟨⟩

theorem mirrors_run {m : Domain} {w : World} (hp : w.session.provider = m.provider)
    {log : List KeyEntry} (hw : w.session.Mirrors m log) (ops : List Operation) :
    (w.run ops).session.Mirrors m (w.keyLog m log ops) := by
  induction ops generalizing w log with
  | nil => exact hw
  | cons op rest ih => exact ih ((w.effect op).provider.trans hp) (mirrors_after hp hw op)

/-- **Lookups answer by the earliest live registration.** After any run over a domain, whatever its
operations were given and answered and however entities were changed: a key that is the id of a tracked
node finds that node, and any other key the object of the first entry of the log with that key. A key
with a type never fails; it finds the object of the first entry with that key whose type may be used as
the type asked for, and nothing if that type is not declared. -/
theorem run_lookup_log {declared : List Declaration} {m : Domain}
    (hm : Domain.build declared = .ok m) (heap : Heap) (config : Config) (ops : List Operation) :
    let w := start heap m.provider config
    let s := (w.run ops).session
    let log := w.keyLog m [] ops
    ∀ key : Key,
      (∀ i h, key.nativeId? = some i → s.nodes.get? i = some h → s.lookupNode key = some h) ∧
      ((∀ i, key.nativeId? = some i → s.nodes.get? i = none) →
        s.lookupNode key = (log.find? fun e => e.key = key).map KeyEntry.object) ∧
      (∀ target, s.lookupNodeByKey target key =
        .ok ((log.find? fun e => e.key = key && m.assignable e.typeName target).map
          KeyEntry.object)) ∧
      ∀ target, m.contains target = false → s.lookupNodeByKey target key = .ok none := by
  intro w s log key
  have hs : s.Mirrors m log := mirrors_run rfl (.fresh m.provider config m) ops
  have hbyKey : ∀ target, s.lookupNodeByKey target key = .ok ((log.find? fun e =>
      e.key = key && m.assignable e.typeName target).map KeyEntry.object) :=
    fun target => hs.lookupNodeByKey (provider_run w ops) target key
  refine ⟨fun i h hi hh => ?_, fun hno => ?_, hbyKey, fun target hout => ?_⟩
  · rw [lookupNode, hi, Option.bind_some, hh]
    rfl
  · have hnone : key.nativeId?.bind s.nodes.get? = none :=
      Option.bind_eq_none_iff.mpr hno
    rw [lookupNode, hnone, Option.none_or]
    exact hs.firstIndexed key
  · rw [hbyKey, List.find?_eq_none.mpr, Option.map_none]
    intro e _ hfits
    have hin := Domain.contains_of_assignable hm (Bool.and_eq_true_iff.mp hfits).2
    rw [hout] at hin
    cases hin

/-- Three namesakes, one of them an employee. -/
def namesakes : Heap :=
  let ann (type : TypeName) (id : NativeId) : Entity :=
    { typeName := type, id := some id, properties := .ofList [("name", .string "Ann")] }
  ⟨#[ann ⟨"Person"⟩ 1, ann ⟨"Employee"⟩ 2, ann ⟨"Person"⟩ 3]⟩

/-- The third is not indexed, since the first is of the same type. When the first has gone, the third is
registered anew. -/
def renewed : List Operation :=
  [.registerNode ⟨0⟩, .registerNode ⟨1⟩, .registerNode ⟨2⟩, .removeNode ⟨0⟩ false, .replaceNode ⟨2⟩]

/-- The employee comes before the third then, also where a person is asked for. -/
theorem lookup_namesakes :
    let w := start namesakes namedDomain.provider .standard
    let s := (w.run renewed).session
    w.keyLog namedDomain [] renewed =
        [⟨.string "Ann", ⟨"Employee"⟩, 2, ⟨1⟩⟩, ⟨.string "Ann", ⟨"Person"⟩, 3, ⟨2⟩⟩] ∧
      s.lookupNode (.string "Ann") = some ⟨1⟩ ∧ s.lookupNode (.integer 3) = some ⟨2⟩ ∧
      s.lookupNodeByKey ⟨"Person"⟩ (.string "Ann") = .ok (some ⟨1⟩) ∧
      s.lookupNodeByKey ⟨"Ghost"⟩ (.string "Ann") = .ok none := by
  intro w s
  have hlog : w.keyLog namedDomain [] renewed =
      [⟨.string "Ann", ⟨"Employee"⟩, 2, ⟨1⟩⟩, ⟨.string "Ann", ⟨"Person"⟩, 3, ⟨2⟩⟩] := by
    decide +kernel
  have hlookup := run_lookup_log build_named namesakes .standard renewed
  obtain ⟨-, hfirst, hbyKey, hundeclared⟩ := hlookup (.string "Ann")
  obtain ⟨hid, -⟩ := hlookup (.integer 3)
  refine ⟨hlog, ?_, hid 3 ⟨2⟩ rfl (by decide +kernel), ?_, hundeclared ⟨"Ghost"⟩ (by decide +kernel)⟩
  · refine (hfirst nofun).trans ?_
    rw [hlog]
    rfl
  · refine (hbyKey ⟨"Person"⟩).trans ?_
    rw [hlog]
    decide +kernel

end World

end ObjectGraph
