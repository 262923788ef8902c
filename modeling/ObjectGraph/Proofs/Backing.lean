import ObjectGraph.Proofs.Effect

/-!
# Records and the entities behind them

A record that names a relationship entity is backed by it: the id that it names is tracked. This holds
in every world, whichever entities are registered under whichever ids, and also behind an operation
that broke off. A record is added only as far as it is backed (`Session.settle`), an id leaves the
register only together with the records that name it, and a replacement leaves it in its place.

So an id that is free is named by no record, and since registering adds no record, an id that comes
back to the register comes back without the records that named it before.
-/

set_option autoImplicit false

namespace ObjectGraph

namespace Session

/-- Each relationship entity that a record names is tracked. -/
def Backed (s : Session) : Prop :=
  ∀ q ∈ s.records, ∀ r, q.relationship = some r → s.relationships.contains r = true

/-- No record names the relationship entity. -/
def Unnamed (s : Session) (r : NativeId) : Prop := ∀ q ∈ s.records, q.relationship ≠ some r

theorem Backed.unnamed {s : Session} (hs : s.Backed) {r : NativeId}
    (hfree : s.relationships.contains r = false) : s.Unnamed r := by
  intro q hq hr
  rw [hs q hq r hr] at hfree
  cases hfree

/-- Fewer records over no fewer relationship entities. -/
theorem Backed.mono {s t : Session} (hs : s.Backed) (hrecords : ∀ q ∈ t.records, q ∈ s.records)
    (hin : ∀ r, s.relationships.contains r = true → t.relationships.contains r = true) :
    t.Backed :=
  fun q hq r hr => hin r (hs q (hrecords q hq) r hr)

theorem Backed.fresh (provider : Schema.Provider) (config : Config) :
    (Session.fresh provider config).Backed :=
  fun q hq => absurd hq (RecordSet.not_mem_empty q)

theorem Backed.of_loses {s t : Session} (hl : s.Loses t) (hs : s.Backed) : t.Backed := by
  cases hl with
  | node id =>
    refine hs.mono (fun q hq => ?_) (fun r hr => ?_)
    · rwa [records_dropNode] at hq
    · rwa [relationships_dropNode]
  | purgedNode id =>
    refine hs.mono (fun q hq => (RecordSet.mem_filter.mp hq).1) (fun r hr => ?_)
    show (s.dropNode id).relationships.contains r = true
    rwa [relationships_dropNode]
  | relationship id =>
    intro q hq r hr
    obtain ⟨hold, hnot⟩ := (mem_records_forgetRelationship s id q).mp hq
    have hin := hs q hold r hr
    -- a record that stays does not name the id that went
    have hne : r ≠ id := by
      rintro rfl
      have hnames := hnot hin
      rw [Record.names, hr, decide_eq_false_iff_not] at hnames
      exact hnames rfl
    rwa [Table.contains, get?_relationships_forgetRelationship, if_neg hne]
  | record p => exact hs.mono (fun q hq => (RecordSet.mem_erase.mp hq).1) (fun r hr => hr)

theorem contains_admitRelationship {s : Session} {heap : Heap} {h : Handle} {id r : NativeId} :
    (s.admitRelationship heap h id).relationships.contains r = true ↔
      r = id ∨ s.relationships.contains r = true := by
  show ((s.relationships.insert id h).get? r).isSome = true ↔ _
  rw [Table.get?_insert]
  split
  next hr => exact ⟨fun _ => .inl hr, fun _ => rfl⟩
  next hr => exact ⟨.inr, fun h => h.resolve_left hr⟩

/-- A record is tracked with a relationship entity only if that is tracked. -/
theorem relationship_settle {s : Session} {q : Record} {r : NativeId}
    (h : (s.settle q).relationship = some r) :
    q.relationship = some r ∧ s.relationships.contains r = true := by
  unfold settle at h
  split at h
  next id hid =>
    split at h
    next hin =>
      obtain rfl := Option.some.inj (hid.symm.trans h)
      exact ⟨h, hin⟩
    next => cases h
  next hnone =>
    rw [hnone] at h
    cases h

theorem Backed.addRecord {s : Session} (hs : s.Backed) (p : Record) : (s.addRecord p).1.Backed := by
  intro q hq r hr
  rcases RecordSet.mem_insert.mp hq with rfl | hold
  · exact (relationship_settle hr).2
  · exact hs q hold r hr

end Session

/-- The operation registers an entity under the id, whether or not the id is free. -/
inductive Operation.RegistersUnder (r : NativeId) : Operation → Prop
  | register (h : Handle) : RegistersUnder r (.registerRelationship h r)
  | replace (h : Handle) : RegistersUnder r (.replaceRelationship h r)

namespace World

open Session

theorem Effect.keeps_backed {w v : World} {op : Operation} (he : w.Effect op v)
    (hw : w.session.Backed) : v.session.Backed := by
  cases he with
  | created | edited | tracked => exact hw
  | shrunk hs => exact hs.keeps .of_loses hw
  | reset h hp => exact (shrinks_of_purge hp).keeps .of_loses hw
  | @admittedNode _ h id key t hop =>
    have ht : t.Backed := by
      rcases hop with ⟨-, rfl⟩ | ⟨-, rfl⟩
      · exact hw
      · exact .of_loses (.node id) hw
    refine ht.mono (fun q hq => ?_) (fun r hr => ?_)
    · rwa [records_admitNode] at hq
    · rwa [relationships_admitNode]
  | @admittedRelationship _ h id t hop =>
    rcases hop with ⟨-, rfl, -⟩ | ⟨-, rfl⟩
    · exact hw.mono (fun q hq => hq) fun r hr => contains_admitRelationship.mpr (.inr hr)
    · refine hw.mono (fun q hq => hq) fun r hr => contains_admitRelationship.mpr ?_
      by_cases hri : r = id
      · exact .inl hri
      · refine .inr ?_
        show ((w.session.relationships.erase id).get? r).isSome = true
        rwa [Table.get?_erase, if_neg hri]
  | recorded p => exact hw.addRecord p
  | cleared => exact .fresh _ _

theorem run_backed (heap : Heap) (provider : Schema.Provider) (config : Config)
    (ops : List Operation) : ((start heap provider config).run ops).session.Backed :=
  run_keeps (P := fun w => w.session.Backed) (fun {w} op hw => (w.effect op).keeps_backed hw)
    (.fresh provider config) ops

/-! ## An id that comes back -/

/-- An id that is free stays free until an entity is registered under it. -/
theorem Effect.keeps_free {w v : World} {op : Operation} {r : NativeId} (he : w.Effect op v)
    (hop : ¬ op.RegistersUnder r) (hw : w.session.relationships.contains r = false) :
    v.session.relationships.contains r = false := by
  refine Bool.eq_false_iff.mpr fun hin => ?_
  obtain ⟨k, hk⟩ := Option.isSome_iff_exists.mp hin
  have hk : (v.session.register .relationship).get? r = some k := hk
  rcases he.get?_register hk with hold | hoffer
  · have hold : w.session.relationships.get? r = some k := hold
    rw [Table.contains_eq_false_iff.mp hw] at hold
    cases hold
  · cases hoffer with
    | registerRelationship => exact hop (.register k)
    | replaceRelationship => exact hop (.replace k)

/-- An id that no record names is named by none until a record with it is added. -/
theorem Effect.keeps_unnamed {w v : World} {op : Operation} {r : NativeId} (he : w.Effect op v)
    (hop : ∀ p, op = .addRecord p → p.relationship ≠ some r) (hw : w.session.Unnamed r) :
    v.session.Unnamed r := by
  intro q hq hr
  rcases he.mem_records hq with hold | ⟨p, rfl, rfl⟩
  · exact hw q hold hr
  · exact hop p rfl (relationship_settle hr).1

theorem run_keeps_free {w : World} {ops : List Operation} {r : NativeId}
    (hops : ∀ op ∈ ops, ¬ op.RegistersUnder r)
    (hw : w.session.relationships.contains r = false) :
    (w.run ops).session.relationships.contains r = false := by
  induction ops generalizing w with
  | nil => exact hw
  | cons op ops ih =>
    have hw := (w.effect op).keeps_free (hops op List.mem_cons_self) hw
    exact ih (fun o ho => hops o (List.mem_cons_of_mem _ ho)) hw

theorem run_keeps_unnamed {w : World} {ops : List Operation} {r : NativeId}
    (hops : ∀ p, .addRecord p ∈ ops → p.relationship ≠ some r) (hw : w.session.Unnamed r) :
    (w.run ops).session.Unnamed r := by
  induction ops generalizing w with
  | nil => exact hw
  | cons op ops ih =>
    have hw := (w.effect op).keeps_unnamed (fun p hp => hops p (hp ▸ List.mem_cons_self)) hw
    exact ih (fun p hp => hops p (List.mem_cons_of_mem _ hp)) hw

/-- **No record dangles, and none comes back with a reused id.** In every world that a run comes to,
each relationship entity that a record names is tracked. If an operation makes an id free, and after
others (`gap`) an entity is registered under it again, then no record names the id until one that does
is added after that. -/
theorem run_records_backed (heap : Heap) (provider : Schema.Provider) (config : Config)
    (ops : List Operation) :
    let w := (start heap provider config).run ops
    w.session.Backed ∧
      ∀ (drop : Operation) (r : NativeId) (gap : List Operation) (register : Operation)
        (rest : List Operation),
        w.session.relationships.contains r = true →
        (w.after drop).session.relationships.contains r = false →
        (∀ op ∈ gap, ¬ op.RegistersUnder r) →
        register.RegistersUnder r →
        (∀ p, .addRecord p ∈ rest → p.relationship ≠ some r) →
        (w.run (drop :: gap ++ register :: rest)).session.Unnamed r := by
  intro w
  refine ⟨run_backed heap provider config ops, fun drop r gap register rest _ hfree hgap hreg hrest => ?_⟩
  let u := w.run (drop :: gap)
  have hu : u.session.Backed := by
    have hrun := run_backed heap provider config (ops ++ drop :: gap)
    rwa [run_append] at hrun
  have hufree : u.session.relationships.contains r = false :=
    run_keeps_free (w := w.after drop) hgap hfree
  have hname : u.session.Unnamed r := hu.unnamed hufree
  rw [run_append]
  refine run_keeps_unnamed (w := u) (fun p hp => ?_) hname
  rcases List.mem_cons.mp hp with rfl | hp
  · cases hreg
  · exact hrest p hp

/-- An acquaintance is detached, its edge is recorded while there is nothing behind it, and the
acquaintance is registered again. -/
theorem unnamed_after_detaching :
    let w := (start twoPersons acquaintance.provider .standard).run
      [.registerRelationship ⟨2⟩ 5, .addRecord knows]
    w.session.relationships.contains 5 = true ∧
      (w.after (.detachRelationship 5)).session.relationships.contains 5 = false ∧
      (w.run (.detachRelationship 5 :: [.addRecord knows] ++
        .registerRelationship ⟨2⟩ 5 :: [])).session.Unnamed 5 := by
  have htracked : ((start twoPersons acquaintance.provider .standard).run
      [.registerRelationship ⟨2⟩ 5, .addRecord knows]).session.relationships.contains 5 = true := by
    decide
  have hfree : (((start twoPersons acquaintance.provider .standard).run
      [.registerRelationship ⟨2⟩ 5, .addRecord knows]).after
        (.detachRelationship 5)).session.relationships.contains 5 = false := by decide +kernel
  have hgap : ∀ op ∈ [Operation.addRecord knows], ¬ op.RegistersUnder 5 := by
    intro op hop
    rw [List.mem_singleton] at hop
    rintro ⟨⟩ <;> cases hop
  exact ⟨htracked, hfree, (run_records_backed _ _ _ _).2 _ 5 _ _ [] htracked hfree hgap
    (.register ⟨2⟩) (fun p hp => absurd hp List.not_mem_nil)⟩

end World

end ObjectGraph
