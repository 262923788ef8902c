import ObjectGraph.Proofs.ContentBytes
import ObjectGraph.Proofs.Discipline
import ObjectGraph.Proofs.Inheritance
import ObjectGraph.Session.Query
import Mathlib.Data.List.Induction

/-!
# Which snapshot an entity is compared with

The tracker keeps one snapshot for each type and id, whichever object it was taken of, and forgets
none when something is removed. So old snapshots and those of other objects lie around, and an entity
may be compared with one that is not its own. It is not, as long as it is tracked and callers keep to
the types and ids: from the moment when an object is put into its register (`World.Admits`) no other
object with its type and id can be put anywhere, since the place is taken and the other register is
for other types.

So each tracked entity has been admitted at some point of the run for the last time, and the snapshot
under its type and id is the one that was taken of it then (`World.remembered_run`).

Both halves of the rule on types are needed (`World.isDirty_misled`). An entity that changes its type
while it is tracked is compared with whatever lies under the type that it has come to. And where objects
of one type go to both registers, as may happen with an interface, two namesakes may be tracked at once,
and the snapshot of the second takes the place of the first one's.
-/

set_option autoImplicit false

namespace ObjectGraph

open Session

/-- The operation empties the place first. -/
inductive Operation.Replaces : Operation → Prop
  | node (h : Handle) : Replaces (.replaceNode h)
  | relationship (h : Handle) (id : NativeId) : Replaces (.replaceRelationship h id)

/-- The session keeps its tracker. -/
def Operation.KeepsTracker : Operation → Prop
  | .track _ => False
  | _ => True

namespace World

/-- The operation puts the entity into its register: it is offered, the place is free or is emptied
for it, and it stands there afterwards. -/
def Admits (w : World) (op : Operation) (h : Handle) : Prop :=
  ∃ reg i, w.Offers reg i h op ∧ ((w.after op).session.register reg).get? i = some h ∧
    (op.Replaces ∨ (w.session.register reg).get? i = none)

/-- What callers may do: keep to the types and ids that the provider knows, and leave the tracker
alone. -/
def Plain (p : Schema.Provider) (w : World) (op : Operation) : Prop :=
  p.typing.Allows w op ∧ op.KeepsTracker

variable {p : Schema.Provider} {w : World} {op : Operation} {h : Handle}

/-! ## Admission -/

/-- Registering where something is tracked does nothing. -/
theorem after_registerNode_of_taken {id : NativeId} (hid : (w.heap.get h).id = some id)
    (htaken : w.session.nodes.contains id = true) : w.after (.registerNode h) = w := by
  simp only [after, registerNode, hid, htaken, if_true]

theorem after_registerRelationship_of_taken {id : NativeId} {k : Handle}
    (htaken : w.session.relationships.get? id = some k) :
    w.after (.registerRelationship h id) = w := by
  simp only [after, registerRelationship, htaken]

/-- What is tracked afterwards was tracked before in the same place, or has been admitted. -/
theorem tracked_before {reg : Register} {i : NativeId}
    (hk : ((w.after op).session.register reg).get? i = some h) :
    (w.session.register reg).get? i = some h ∨ w.Admits op h := by
  rcases (w.effect op).get?_register hk with hold | hoffer
  · exact .inl hold
  · cases hfree : (w.session.register reg).get? i with
    | none => exact .inr ⟨reg, i, hoffer, hk, .inr hfree⟩
    | some k =>
      cases hoffer with
      | registerNode hid =>
        have htaken : w.session.nodes.contains i = true := by
          have hfree : w.session.nodes.get? i = some k := hfree
          rw [Table.contains, hfree]
          rfl
        rw [after_registerNode_of_taken hid htaken, hfree] at hk
        exact .inl hk
      | replaceNode hid => exact .inr ⟨_, _, .replaceNode hid, hk, .inl (.node h)⟩
      | registerRelationship =>
        rw [after_registerRelationship_of_taken hfree, hfree] at hk
        exact .inl hk
      | replaceRelationship =>
        exact .inr ⟨_, _, .replaceRelationship h i, hk, .inl (.relationship h i)⟩

/-- A node that has come to stand in a free place has been remembered. -/
theorem tracker_registerNode {s : Session} {heap : Heap} {id : NativeId}
    (hid : (heap.get h).id = some id) (hfree : s.nodes.get? id = none)
    (hk : (s.registerNode heap h).session.nodes.get? id = some h) :
    (s.registerNode heap h).session.tracker = s.tracker.remember heap (heap.get h) := by
  have hout : s.nodes.contains id = false := Table.contains_eq_false_iff.mpr hfree
  simp only [registerNode, hid, hout, Bool.false_eq_true, if_false] at hk ⊢
  split at hk
  · rw [hfree] at hk
    cases hk
  next key _ => exact tracker_admitNode s heap h id key

/-- An admission takes a snapshot, and leaves the heap as it is. -/
theorem Admits.remembers (ha : w.Admits op h) :
    (w.after op).heap = w.heap ∧
      (w.after op).session.tracker = w.session.tracker.remember w.heap (w.heap.get h) := by
  obtain ⟨reg, i, hoffer, hk, hplace⟩ := ha
  cases hoffer with
  | registerNode hid =>
    have hfree : w.session.nodes.get? i = none := hplace.resolve_left (by rintro ⟨⟩)
    exact ⟨rfl, tracker_registerNode hid hfree hk⟩
  | replaceNode hid =>
    have hdrop : w.session.dropNodeOf (w.heap.get h) = w.session.dropNode i := by
      rw [dropNodeOf, hid]
    have hfree : (w.session.dropNode i).nodes.get? i = none := by simp
    have hk : ((w.session.dropNodeOf (w.heap.get h)).registerNode w.heap h).session.nodes.get? i =
        some h := hk
    rw [hdrop] at hk
    refine ⟨rfl, ?_⟩
    show ((w.session.dropNodeOf (w.heap.get h)).registerNode w.heap h).session.tracker = _
    rw [hdrop, tracker_registerNode hid hfree hk, tracker_dropNode]
  | registerRelationship =>
    have hfree : w.session.relationships.get? i = none := hplace.resolve_left (by rintro ⟨⟩)
    refine ⟨rfl, ?_⟩
    simp only [after, registerRelationship, hfree]
    rfl
  | replaceRelationship =>
    refine ⟨rfl, ?_⟩
    simp only [after, replaceRelationship, registerRelationship, Table.get?_erase, if_true]
    rfl

/-! ## Between admissions -/

/-- Unless everything is forgotten, the tracker changes by admissions only. -/
theorem tracker_after (ho : op.KeepsTracker) :
    op = .clear ∨ (w.after op).session.tracker = w.session.tracker ∨ ∃ k, w.Admits op k := by
  have he := w.effect op
  generalize hv : w.after op = v at he ⊢
  cases he with
  | created | edited | recorded => exact .inr (.inl rfl)
  | shrunk hs => exact .inr (.inl hs.tracker)
  | reset k hp => exact .inr (.inl (shrinks_of_purge hp).tracker)
  | @admittedNode _ k id key t hop hid hfree =>
    have hk : ((t.admitNode w.heap k id key).register .node).get? id = some k := by
      show (t.admitNode w.heap k id key).nodes.get? id = some k
      rw [nodes_admitNode, Table.get?_insert, if_pos rfl]
    refine .inr (.inr ⟨k, .node, id, ?_, hv ▸ hk, ?_⟩)
    · rcases hop with ⟨rfl, -⟩ | ⟨rfl, -⟩
      · exact .registerNode hid
      · exact .replaceNode hid
    · rcases hop with ⟨rfl, rfl⟩ | ⟨rfl, -⟩
      · exact .inr hfree
      · exact .inl (.node k)
  | @admittedRelationship _ k id t hop =>
    have hk : ((t.admitRelationship w.heap k id).register .relationship).get? id = some k := by
      show (t.relationships.insert id k).get? id = some k
      rw [Table.get?_insert, if_pos rfl]
    refine .inr (.inr ⟨k, .relationship, id, ?_, hv ▸ hk, ?_⟩)
    · rcases hop with ⟨rfl, -⟩ | ⟨rfl, -⟩
      · exact .registerRelationship k id
      · exact .replaceRelationship k id
    · rcases hop with ⟨rfl, rfl, hfree⟩ | ⟨rfl, -⟩
      · exact .inr hfree
      · exact .inl (.relationship k id)
  | cleared => exact .inl rfl
  | tracked => exact ho.elim

/-- What is tracked and stays so without being admitted again is compared with the same snapshot
afterwards. -/
theorem snapshot?_after (hp : w.session.provider = p) (hw : p.typing.Holds w) (ho : w.Plain p op)
    (hno : ¬ w.Admits op h) {reg : Register} {i : NativeId}
    (hold : (w.session.register reg).get? i = some h)
    (hk : ((w.after op).session.register reg).get? i = some h) :
    (w.after op).session.tracker.snapshot? ((w.after op).heap.get h) =
      w.session.tracker.snapshot? (w.heap.get h) := by
  have hsound : p.typing.BorneOut w.session.provider := by
    rw [hp]
    exact fun _ _ htype => htype
  obtain ⟨hid, htype⟩ := hw.get_after hsound ho.1 (w.effect op) hold hk
  rw [Tracker.snapshot?_congr _ hid htype]
  rcases tracker_after (w := w) ho.2 with rfl | hsame | ⟨k, hadmits⟩
  · cases reg <;> cases hk
  · rw [hsame]
  · rw [hadmits.remembers.2]
    refine Tracker.snapshot?_remember_of_ne _ _ ?_
    -- another object with the same type would be in the same register, and so in the same place
    by_cases hsametype : (w.heap.get k).typeName = (w.heap.get h).typeName
    · refine .inr fun hsameid => hno ?_
      obtain ⟨reg', j, hoffer, hk', -⟩ := id hadmits
      obtain ⟨hidk, htypek⟩ := ho.1.offered hoffer
      obtain ⟨hidh, htypeh⟩ := hw reg i h hold
      rw [hsametype] at htypek
      obtain rfl := Schema.Provider.typing_unique htypeh htypek
      obtain rfl : i = j := by
        rw [hidk, hidh] at hsameid
        exact (Option.some.inj hsameid).symm
      obtain rfl := Option.some.inj (hk.symm.trans hk')
      exact hadmits
    · exact .inl hsametype

/-! ## Every run -/

theorem holds_run {heap : Heap} {config : Config} {ops : List Operation}
    (hops : (start heap p config).Follows (Plain p) ops) :
    p.typing.Holds ((start heap p config).run ops) :=
  Typing.holds_run (fun _ _ htype => htype) (hops.mono fun _ _ ho => ho.1)

/-- Every tracked entity has been admitted for the last time at some point of the run, and is compared
with the snapshot that was taken then. -/
theorem remembered_run {heap : Heap} {config : Config} {ops : List Operation}
    (hops : (start heap p config).Follows (Plain p) ops)
    (hk : ((start heap p config).run ops).session.Tracks h) :
    ∃ before op since, ops = before ++ op :: since ∧
      ((start heap p config).run before).Admits op h ∧
      (((start heap p config).run before).after op).Follows (fun v o => ¬ v.Admits o h) since ∧
      ((start heap p config).run ops).session.tracker.snapshot?
          (((start heap p config).run ops).heap.get h) =
        some (Tracker.snapshotOf ((start heap p config).run before).heap
          (((start heap p config).run before).heap.get h)) := by
  -- from the last operation backwards: it admits the entity, or leaves the snapshot alone
  induction ops using List.reverseRecOn with
  | nil =>
    obtain ⟨reg, i, hk⟩ := hk
    cases reg <;> cases hk
  | append_singleton ops op ih =>
    obtain ⟨hops, hop, -⟩ := follows_append.mp hops
    rw [run_concat] at hk ⊢
    obtain ⟨reg, i, hk⟩ := hk
    by_cases hadmits : ((start heap p config).run ops).Admits op h
    · refine ⟨ops, op, [], rfl, hadmits, trivial, ?_⟩
      obtain ⟨hheap, htracker⟩ := hadmits.remembers
      obtain ⟨_, _, hoffer, -⟩ := hadmits
      rw [hheap, htracker]
      exact Tracker.snapshot?_remember_self _ _ (hop.1.offered hoffer).1
    · have hold := (tracked_before hk).resolve_right hadmits
      obtain ⟨before, o, since, rfl, hadm, hsince, hsnapshot⟩ := ih hops ⟨reg, i, hold⟩
      have hwhole : ((start heap p config).run before |>.after o).run since =
          (start heap p config).run (before ++ o :: since) := (run_append _ before (o :: since)).symm
      refine ⟨before, o, since ++ [op], by simp, hadm,
        follows_append.mpr ⟨hsince, by rwa [hwhole], trivial⟩, ?_⟩
      rw [← hsnapshot]
      exact snapshot?_after (provider_run _ _) (holds_run hops) hop hadmits hold hk

/-- The hash of these two byte strings is no collision. -/
def Apart (a b : List UInt8) : Prop := Sha256.hash a = Sha256.hash b → a = b

/-- An entity is dirty if its content is not that of its snapshot. -/
theorem isDirty_eq_false_iff {u : World} (hs : w.session.tracker.snapshot? (w.heap.get h) =
      some (Tracker.snapshotOf u.heap (u.heap.get h)))
    (hu : (u.heap.get h).Short) (hnow : (w.heap.get h).Short)
    (hapart : Apart ((u.heap.get h).contentBytes u.heap) ((w.heap.get h).contentBytes w.heap)) :
    w.session.isDirty w.heap h = false ↔
      Entity.SameContent u.heap (u.heap.get h) w.heap (w.heap.get h) := by
  rw [Session.isDirty, Bool.not_eq_false', Tracker.isRemembered_iff hs,
    ← Entity.contentBytes_eq_iff hu hnow]
  exact ⟨hapart, fun hbytes => congrArg Sha256.hash hbytes⟩

/-- **An entity is clean exactly when it looks as it did when it was last admitted.** Callers keep to
the types and ids and leave the tracker alone, and change entities as they like otherwise: whatever is
tracked keeps its id and its type. Then each tracked entity has been put into its register for the last
time at some point of the run (`u`), and from then on it is dirty exactly when its content differs from
what it was there, given that texts and collections have lengths that a word can hold and that the hash
keeps the two contents apart. And no operation that leaves it tracked, does not put it into its register
again and leaves its content alone makes it clean or dirty. -/
theorem run_isDirty_iff (p : Schema.Provider) (heap : Heap) (config : Config)
    (ops : List Operation) (hops : (start heap p config).Follows (Plain p) ops) :
    let w := (start heap p config).run ops
    (∀ h, w.session.Tracks h →
      ∃ before op since, ops = before ++ op :: since ∧
        let u := (start heap p config).run before
        u.Admits op h ∧ (u.after op).Follows (fun v o => ¬ v.Admits o h) since ∧
        ((u.heap.get h).Short → (w.heap.get h).Short →
          Apart ((u.heap.get h).contentBytes u.heap) ((w.heap.get h).contentBytes w.heap) →
          (w.session.isDirty w.heap h = false ↔
            Entity.SameContent u.heap (u.heap.get h) w.heap (w.heap.get h)))) ∧
    ∀ op h, w.Plain p op → (w.after op).session.Tracks h → ¬ w.Admits op h →
      Entity.SameContent w.heap (w.heap.get h) (w.after op).heap ((w.after op).heap.get h) →
      (w.after op).session.isDirty (w.after op).heap h = w.session.isDirty w.heap h := by
  intro w
  refine ⟨fun h hk => ?_, fun op h hop hk hno hsame => ?_⟩
  · obtain ⟨before, op, since, heq, hadmits, hsince, hsnapshot⟩ := remembered_run hops hk
    exact ⟨before, op, since, heq, hadmits, hsince, isDirty_eq_false_iff hsnapshot⟩
  · obtain ⟨reg, i, hk⟩ := hk
    have hold := (tracked_before hk).resolve_right hno
    have hsnapshot : (w.after op).session.tracker.snapshot? ((w.after op).heap.get h) =
        w.session.tracker.snapshot? (w.heap.get h) :=
      snapshot?_after (provider_run _ _) (holds_run hops) hop hno hold hk
    have hdigest : ((w.after op).heap.get h).digest (w.after op).heap = (w.heap.get h).digest w.heap :=
      congrArg Sha256.hash hsame.contentBytes_eq.symm
    simp only [Session.isDirty, Tracker.isRemembered, hsnapshot, hdigest]

/-- A person has a birthday. -/
def birthday : Entity → Entity := fun e => e.setProperty "age" (.integer 30)

theorem plain_birthday : (start twoPersons acquaintance.provider .standard).Follows
    (Plain acquaintance.provider) [.registerNode ⟨0⟩, .edit ⟨0⟩ birthday] :=
  ⟨⟨rfl, trivial⟩, ⟨fun _ => ⟨rfl, rfl⟩, trivial⟩, trivial⟩

theorem short_person : (twoPersons.get ⟨0⟩).Short := by decide +kernel

theorem short_birthday : (birthday (twoPersons.get ⟨0⟩)).Short := by decide +kernel

/-- The hash keeps the two ages apart, so the birthday makes the person dirty; the registration of the
other person changes nothing about that. -/
theorem dirty_after_birthday :
    let w := (start twoPersons acquaintance.provider .standard).run
      [.registerNode ⟨0⟩, .edit ⟨0⟩ birthday]
    (w.session.isDirty w.heap ⟨0⟩ = false ↔
      Entity.SameContent twoPersons (twoPersons.get ⟨0⟩) w.heap (w.heap.get ⟨0⟩)) ∧
    (w.after (.registerNode ⟨1⟩)).session.isDirty (w.after (.registerNode ⟨1⟩)).heap ⟨0⟩ =
      w.session.isDirty w.heap ⟨0⟩ := by
  intro w
  obtain ⟨hlast, hother⟩ := run_isDirty_iff acquaintance.provider twoPersons .standard
    [.registerNode ⟨0⟩, .edit ⟨0⟩ birthday] plain_birthday
  have hfirst : (w.session.register .node).get? 1 = some ⟨0⟩ := by decide +kernel
  have hstays : ((w.after (.registerNode ⟨1⟩)).session.register .node).get? 1 = some ⟨0⟩ := by
    decide +kernel
  refine ⟨?_, ?_⟩
  · obtain ⟨before, op, since, heq, ⟨reg, i, hoffer, -⟩, -, hiff⟩ := hlast ⟨0⟩ ⟨.node, 1, hfirst⟩
    have hbefore : before = [] := by
      match before, heq, hoffer with
      | [], _, _ => rfl
      | [_], heq, hoffer =>
        obtain ⟨rfl, -⟩ := List.cons.inj (List.cons.inj heq).2
        cases hoffer
      | _ :: _ :: _, heq, _ => exact absurd (congrArg List.length heq) (by simp)
    subst hbefore
    refine hiff short_person short_birthday fun hhash => ?_
    exact absurd hhash (by decide +kernel)
  · refine hother (.registerNode ⟨1⟩) ⟨0⟩ ⟨rfl, trivial⟩ ⟨.node, 1, hstays⟩ ?_
      ⟨rfl, rfl, fun _ => rfl, fun _ => rfl⟩
    rintro ⟨reg, i, hoffer, -⟩
    cases hoffer

/-! ## Without the rule on types -/

/-- Callers keep nodes and relationships apart and leave the ids of what is tracked and the tracker
alone. They may put an interface into either register and give an entity another type. -/
def Lax (m : Schema.Domain) (w : World) : Operation → Prop
  | .registerNode h | .replaceNode h =>
    ∀ t, m.get? (w.heap.get h).typeName = some t → t.kind ≠ .relationship
  | .registerRelationship h id | .replaceRelationship h id =>
    ∀ t, m.get? (w.heap.get h).typeName = some t →
      t.kind ≠ .node ∧ (t.kind = .relationship → (w.heap.get h).id = some id)
  | .edit h change => w.session.Tracks h → (change (w.heap.get h)).id = (w.heap.get h).id
  | .track _ => False
  | _ => True

def city : Entity := { typeName := ⟨"City"⟩, id := some 1 }

/-- A city has been tracked under the id of the first person. Its snapshot is still there. -/
def razed : List Operation := [.create city, .registerNode ⟨3⟩, .removeNode ⟨3⟩ false]

theorem razed_lax : (start twoPersons Schema.namedDomain.provider .standard).Follows
    (Lax Schema.namedDomain) (razed ++ .registerNode ⟨0⟩ :: [.edit ⟨0⟩ fun _ => city]) := by
  refine ⟨trivial, fun t ht => ?_, trivial, fun t ht => ?_, fun _ => rfl, trivial⟩
  · obtain rfl := Option.some.inj ht
    decide
  · obtain rfl := Option.some.inj ht
    decide

def nobody : Entity := { typeName := ⟨"Named"⟩, id := some 1 }

/-- Two objects of one interface and with one id, but of different content. -/
def namesakesOfInterface : List Operation :=
  [.create nobody, .create (nobody.setProperty "name" (.string "Ann"))]

theorem namesakesOfInterface_lax : (start twoPersons Schema.namedDomain.provider .standard).Follows
    (Lax Schema.namedDomain)
    (namesakesOfInterface ++ .registerNode ⟨3⟩ :: [.registerRelationship ⟨4⟩ 1]) := by
  refine ⟨trivial, trivial, fun t ht => ?_, fun t ht => ?_, trivial⟩
  · obtain rfl := Option.some.inj ht
    decide
  · obtain rfl := Option.some.inj ht
    decide

/-- The first person is registered and turned into the city: it is not what was registered, and still
it is clean. A name is registered as a node, then its namesake as a relationship: the first has not
changed since, and still it is dirty. -/
theorem isDirty_misled :
    (let s := start twoPersons Schema.namedDomain.provider .standard
      let u := s.run razed
      let since := [.edit ⟨0⟩ fun _ => city]
      let w := s.run (razed ++ .registerNode ⟨0⟩ :: since)
      s.Follows (Lax Schema.namedDomain) (razed ++ .registerNode ⟨0⟩ :: since) ∧
        w.session.Tracks ⟨0⟩ ∧ u.Admits (.registerNode ⟨0⟩) ⟨0⟩ ∧
        (u.after (.registerNode ⟨0⟩)).Follows (fun v o => ¬ v.Admits o ⟨0⟩) since ∧
        Apart ((u.heap.get ⟨0⟩).contentBytes u.heap) ((w.heap.get ⟨0⟩).contentBytes w.heap) ∧
        w.session.isDirty w.heap ⟨0⟩ = false ∧
        ¬ Entity.SameContent u.heap (u.heap.get ⟨0⟩) w.heap (w.heap.get ⟨0⟩)) ∧
    let s := start twoPersons Schema.namedDomain.provider .standard
    let u := s.run namesakesOfInterface
    let since := [.registerRelationship ⟨4⟩ 1]
    let w := s.run (namesakesOfInterface ++ .registerNode ⟨3⟩ :: since)
    s.Follows (Lax Schema.namedDomain) (namesakesOfInterface ++ .registerNode ⟨3⟩ :: since) ∧
      w.session.Tracks ⟨3⟩ ∧ u.Admits (.registerNode ⟨3⟩) ⟨3⟩ ∧
      (u.after (.registerNode ⟨3⟩)).Follows (fun v o => ¬ v.Admits o ⟨3⟩) since ∧
      w.session.isDirty w.heap ⟨3⟩ = true ∧
      Entity.SameContent u.heap (u.heap.get ⟨3⟩) w.heap (w.heap.get ⟨3⟩) := by
  constructor
  · intro s u since w
    refine ⟨razed_lax, ⟨.node, 1, by decide +kernel⟩,
      ⟨.node, 1, .registerNode rfl, by decide +kernel, .inr (by decide +kernel)⟩, ⟨?_, trivial⟩,
      fun hhash => absurd hhash (by decide +kernel), by decide +kernel, ?_⟩
    · rintro ⟨_, _, hoffer, -⟩
      cases hoffer
    · rintro ⟨htype, -⟩
      exact absurd htype (by decide)
  · intro s u since w
    refine ⟨namesakesOfInterface_lax, ⟨.node, 1, by decide +kernel⟩,
      ⟨.node, 1, .registerNode rfl, by decide +kernel, .inr (by decide +kernel)⟩, ⟨?_, trivial⟩,
      by decide +kernel, rfl, rfl, fun _ => rfl, fun _ => rfl⟩
    rintro ⟨_, _, hoffer, -⟩
    cases hoffer

end World

end ObjectGraph
