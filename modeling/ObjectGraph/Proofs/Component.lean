import ObjectGraph.Proofs.Agreement
import ObjectGraph.Proofs.Successive

/-!
# Connected components

The tracked relationship entities are the edges of an undirected graph on the tracked nodes. A session
is coherent (`Typing.Coherent`) when its records bear that graph out: each relationship entity has a
start and an end that are tracked, a record that names it at either of them, and none that leads
elsewhere. Structural records are no edges, and may join what they like.

A purge goes from nodes to relationship entities by the records, and from relationship entities to
nodes by their references. In a coherent session the two ways undo each other (`Anchored.reached_iff`),
so what a purge reaches is a whole component, from whichever of its members it starts
(`reached_iff_component`), and what it leaves is coherent again.
-/

set_option autoImplicit false

namespace ObjectGraph

open Session

namespace Session

/-- A tracked relationship entity leads from one node id to another. -/
def Joins (s : Session) (heap : Heap) (r a b : NativeId) : Prop :=
  ∃ h start stop, s.relationships.get? r = some h ∧
    s.endpoints (heap.get h) = .ok (some start, some stop) ∧
    (heap.get start).id = some a ∧ (heap.get stop).id = some b

/-- A chain of relationship entities, each taken in either direction, leads from one node to the
other. -/
def Connected (s : Session) (heap : Heap) : NativeId → NativeId → Prop :=
  Relation.EqvGen fun a b => ∃ r, s.Joins heap r a b

/-- The component of a node: the nodes that are connected with it, and the relationship entities
between them. -/
def Component (s : Session) (heap : Heap) (n : NativeId) : Register → NativeId → Prop
  | .node, i => s.Connected heap n i
  | .relationship, r => ∃ a b, s.Joins heap r a b ∧ s.Connected heap n a

/-- The entity is tracked under a key of the component of a node. -/
def LiesIn (s : Session) (heap : Heap) (x : Handle) (n : NativeId) : Prop :=
  ∃ reg i, (s.register reg).get? i = some x ∧ s.Component heap n reg i

/-- The relationship entity leads from one tracked node to another, with a record at either end, and
the records that name it do not leave the two. -/
structure Anchored (s : Session) (heap : Heap) (r a b : NativeId) : Prop where
  joins : s.Joins heap r a b
  start : s.nodes.contains a = true
  stop : s.nodes.contains b = true
  recordedAtStart : ∃ q ∈ s.records, q.relationship = some r ∧ q.touches a = true
  recordedAtEnd : ∃ q ∈ s.records, q.relationship = some r ∧ q.touches b = true
  confined : ∀ q ∈ s.records, q.relationship = some r →
    (q.startNode = a ∨ q.startNode = b) ∧ (q.endNode = a ∨ q.endNode = b)

end Session

/-- What is tracked keeps to the types and the ids, the ends of relationship entities are nodes, and
each relationship entity is anchored. -/
structure Typing.Coherent (τ : Typing) (w : World) : Prop where
  holds : τ.Holds w
  ends : ∀ r h k, w.session.relationships.get? r = some h → w.session.EndOf w.heap h k →
    τ .node (w.heap.get k).typeName
  anchored : ∀ r, w.session.relationships.contains r = true →
    ∃ a b, w.session.Anchored w.heap r a b

namespace Session

variable {s t : Session} {heap : Heap} {x : Handle} {r a b n : NativeId}

/-- A relationship entity leads from one node to one other only. -/
theorem Joins.unique {a' b' : NativeId} (h : s.Joins heap r a b) (h' : s.Joins heap r a' b') :
    a' = a ∧ b' = b := by
  obtain ⟨k, start, stop, hk, hends, ha, hb⟩ := h
  obtain ⟨k', start', stop', hk', hends', ha', hb'⟩ := h'
  obtain rfl := Option.some.inj (hk.symm.trans hk')
  obtain ⟨hstart, hstop⟩ := Prod.mk.inj (Except.ok.inj (hends.symm.trans hends'))
  obtain rfl := Option.some.inj hstart
  obtain rfl := Option.some.inj hstop
  exact ⟨Option.some.inj (ha'.symm.trans ha), Option.some.inj (hb'.symm.trans hb)⟩

/-- The ends of the entity are the two nodes. -/
theorem Joins.id_of_endOf (hj : s.Joins heap r a b) {h k : Handle} {j : NativeId}
    (hh : s.relationships.get? r = some h) (hk : s.EndOf heap h k) (hid : (heap.get k).id = some j) :
    j = a ∨ j = b := by
  obtain ⟨h', start, stop, hh', hends, ha, hb⟩ := hj
  obtain rfl := Option.some.inj (hh.symm.trans hh')
  rcases (endOf_iff hends).mp hk with hk | hk
  · obtain rfl := Option.some.inj hk
    exact .inl (Option.some.inj (hid.symm.trans ha))
  · obtain rfl := Option.some.inj hk
    exact .inr (Option.some.inj (hid.symm.trans hb))

/-- What holds at both ends of every relationship entity or at neither holds along a chain. -/
theorem Connected.congr {P : NativeId → Prop} (h : s.Connected heap a b)
    (hjoins : ∀ r a b, s.Joins heap r a b → (P a ↔ P b)) : P a ↔ P b := by
  induction h with
  | rel a b hedge =>
    obtain ⟨r, hr⟩ := hedge
    exact hjoins r a b hr
  | refl a => exact Iff.rfl
  | symm a b _ ih => exact ih.symm
  | trans a b c _ _ hab hbc => exact hab.trans hbc

namespace Anchored

/-- From its start, its end and itself the same is reached. -/
theorem reached_iff (hr : s.Anchored heap r a b) :
    (s.Reached heap x .relationship r ↔ s.Reached heap x .node a) ∧
      (s.Reached heap x .relationship r ↔ s.Reached heap x .node b) := by
  obtain ⟨h, start, stop, hh, hends, ha, hb⟩ := hr.joins
  refine ⟨⟨fun hreached => ?_, fun hreached => ?_⟩, fun hreached => ?_, fun hreached => ?_⟩
  · exact .endOf hreached hh ⟨_, _, hends, .inl rfl⟩ ha hr.start
  · obtain ⟨q, hq, hnames, ht⟩ := hr.recordedAtStart
    exact .named hreached hq ht hnames
  · exact .endOf hreached hh ⟨_, _, hends, .inr rfl⟩ hb hr.stop
  · obtain ⟨q, hq, hnames, ht⟩ := hr.recordedAtEnd
    exact .named hreached hq ht hnames

/-- A record that names it touches no third node. -/
theorem touches (hr : s.Anchored heap r a b) {q : Record} (hq : q ∈ s.records)
    (hnames : q.relationship = some r) (ht : q.touches n = true) : n = a ∨ n = b := by
  obtain ⟨hstart, hstop⟩ := hr.confined q hq hnames
  rcases Record.touches_iff.mp ht with rfl | rfl
  · exact hstart
  · exact hstop

/-- The three belong to one component. -/
theorem component_iff (hr : s.Anchored heap r a b) :
    (s.Component heap n .relationship r ↔ s.Connected heap n a) ∧
      (s.Component heap n .relationship r ↔ s.Connected heap n b) := by
  have hedge : s.Connected heap a b := .rel _ _ ⟨r, hr.joins⟩
  have hstart : s.Component heap n .relationship r ↔ s.Connected heap n a := by
    constructor
    · rintro ⟨a', b', hjoins, hconnected⟩
      obtain ⟨rfl, rfl⟩ := hr.joins.unique hjoins
      exact hconnected
    · exact fun hconnected => ⟨a, b, hr.joins, hconnected⟩
  refine ⟨hstart, hstart.trans ⟨fun h => ?_, fun h => ?_⟩⟩
  · exact .trans _ _ _ h hedge
  · exact .trans _ _ _ h (.symm _ _ hedge)

end Anchored

/-! ## What a purge reaches -/

section Coherent

variable (hanchored : ∀ r, s.relationships.contains r = true → ∃ a b, s.Anchored heap r a b)

include hanchored

theorem anchored_of_joins (h : s.Joins heap r a b) : s.Anchored heap r a b := by
  have hin : s.relationships.contains r = true := by
    obtain ⟨k, _, _, hk, -⟩ := h
    exact Option.isSome_iff_exists.mpr ⟨k, hk⟩
  obtain ⟨a', b', hr⟩ := hanchored r hin
  obtain ⟨rfl, rfl⟩ := h.unique hr.joins
  exact hr

/-- Connected nodes are reached from the same entities. -/
theorem reached_congr_of_connected (h : s.Connected heap a b) :
    s.Reached heap x .node a ↔ s.Reached heap x .node b := by
  refine h.congr fun r a b hjoins => ?_
  have hr := (anchored_of_joins hanchored hjoins).reached_iff (x := x)
  exact hr.1.symm.trans hr.2

/-- What is reached from one entity of a component lies in the component. -/
theorem component_of_reached (hs : s.Grounded heap) (hx : s.LiesIn heap x n) {reg : Register}
    {i : NativeId} (h : s.Reached heap x reg i) : s.Component heap n reg i := by
  induction h with
  | root hkey _ =>
    obtain ⟨reg', i', hget, hin⟩ := hx
    obtain ⟨rfl, rfl⟩ := (hs.standsFor hget).unique hkey
    exact hin
  | @named n' r q _ hq ht hr ih =>
    obtain ⟨a, b, hanc⟩ := hanchored r (hs.backed q hq r hr)
    rcases hanc.touches hq hr ht with rfl | rfl
    · exact hanc.component_iff.1.mpr ih
    · exact hanc.component_iff.2.mpr ih
  | @endOf r j h k _ hh hk hid _ ih =>
    obtain ⟨a, b, hjoins, -⟩ := id ih
    have hanc := anchored_of_joins hanchored hjoins
    rcases hjoins.id_of_endOf hh hk hid with rfl | rfl
    · exact hanc.component_iff.1.mp ih
    · exact hanc.component_iff.2.mp ih

/-- A purge that starts anywhere in a component reaches exactly the component. -/
theorem reached_iff_component (hs : s.Grounded heap) (hx : s.LiesIn heap x n) (reg : Register)
    (i : NativeId) : s.Reached heap x reg i ↔ s.Component heap n reg i := by
  refine ⟨component_of_reached hanchored hs hx, fun h => ?_⟩
  -- first from the entity to the node that the component is named by, then on from there
  have hn : s.Reached heap x .node n := by
    obtain ⟨reg', i', hget, hin⟩ := hx
    have hroot : s.Reached heap x reg' i' :=
      .root (hs.standsFor hget) (Option.isSome_iff_exists.mpr ⟨x, hget⟩)
    cases reg' with
    | node => exact (reached_congr_of_connected hanchored hin).mpr hroot
    | relationship =>
      obtain ⟨a, b, hjoins, hconnected⟩ := hin
      have hr := (anchored_of_joins hanchored hjoins).reached_iff.1.mp hroot
      exact (reached_congr_of_connected hanchored hconnected).mpr hr
  cases reg with
  | node => exact (reached_congr_of_connected hanchored h).mp hn
  | relationship =>
    obtain ⟨a, b, hjoins, hconnected⟩ := h
    exact (anchored_of_joins hanchored hjoins).reached_iff.1.mpr
      ((reached_congr_of_connected hanchored hconnected).mp hn)

/-- The records that hang on a component are those that touch one of its nodes. -/
theorem hangsOn_component_iff (hs : s.Grounded heap) {q : Record} (hq : q ∈ s.records) :
    q.HangsOn (s.Component heap n) ↔ ∃ i, s.Connected heap n i ∧ q.touches i = true := by
  constructor
  · rintro (⟨i, hi, ht⟩ | ⟨r, hr, hnames⟩)
    · exact ⟨i, hi, ht⟩
    · obtain ⟨a, b, hanc⟩ := hanchored r (hs.backed q hq r hnames)
      have ht : q.touches q.startNode = true := Record.touches_iff.mpr (.inl rfl)
      refine ⟨q.startNode, ?_, ht⟩
      rcases hanc.touches hq hnames ht with hstart | hstart
      · exact hstart ▸ hanc.component_iff.1.mp hr
      · exact hstart ▸ hanc.component_iff.2.mp hr
  · rintro ⟨i, hi, ht⟩
    exact .inl ⟨i, hi, ht⟩

/-- What is left without a component is anchored as before. -/
theorem Anchored.without (hw : s.Without (s.Component heap n) t)
    (hin : t.relationships.contains r = true) : ∃ a b, t.Anchored heap r a b := by
  obtain ⟨hin, hstays⟩ := hw.contains_relationships.mp hin
  obtain ⟨a, b, hr⟩ := hanchored r hin
  have hstart : ¬ s.Connected heap n a := fun h => hstays (hr.component_iff.1.mpr h)
  have hstop : ¬ s.Connected heap n b := fun h => hstays (hr.component_iff.2.mpr h)
  have hrecord : ∀ q ∈ s.records, q.relationship = some r → q ∈ t.records := by
    intro q hq hnames
    refine hw.mem_records.mpr ⟨hq, ?_⟩
    rintro (⟨i, hi, ht⟩ | ⟨r', hr', hnames'⟩)
    · rcases hr.touches hq hnames ht with rfl | rfl
      · exact hstart hi
      · exact hstop hi
    · obtain rfl := Option.some.inj (hnames.symm.trans hnames')
      exact hstays hr'
  refine ⟨a, b, ?_, ?_, ?_, ?_, ?_, fun q hq => hr.confined q (hw.mem_records.mp hq).1⟩
  · obtain ⟨h, start, stop, hh, hends, ha, hb⟩ := hr.joins
    exact ⟨h, start, stop, hw.get?_relationships.mpr ⟨hh, hstays⟩,
      (endpoints_congr hw.provider _).trans hends, ha, hb⟩
  · exact hw.contains_nodes.mpr ⟨hr.start, hstart⟩
  · exact hw.contains_nodes.mpr ⟨hr.stop, hstop⟩
  · obtain ⟨q, hq, hnames, ht⟩ := hr.recordedAtStart
    exact ⟨q, hrecord q hq hnames, hnames, ht⟩
  · obtain ⟨q, hq, hnames, ht⟩ := hr.recordedAtEnd
    exact ⟨q, hrecord q hq hnames, hnames, ht⟩

end Coherent

end Session

/-! ## Coherent worlds -/

namespace World

variable {m : Schema.Domain} {w : World}

/-- What a purge leaves of a coherent world is coherent. -/
theorem coherent_without {τ : Typing} (hw : τ.Coherent w) {n : NativeId} {t : Session}
    (ht : w.session.Without (w.session.Component w.heap n) t) : τ.Coherent ⟨w.heap, t⟩ where
  holds := holds_without hw.holds ht
  ends r h k hh hk :=
    hw.ends r h k (ht.get?_relationships.mp hh).1 ((endOf_congr ht.provider).mp hk)
  anchored _ hr := Anchored.without hw.anchored ht hr

/-- **A whole component goes in one purge, from whichever member.** In a world that a run comes to, the
records in whatever order, let what is tracked be coherent. Then each tracked entity lies in the
component of some node, and a purge of any entity of a component succeeds: it takes the nodes and the
relationship entities of the component, and of the records exactly those that touch one of these nodes.
What is left is coherent again, and is the same whichever entity of the component was purged. -/
theorem run_purge_component (m : Schema.Domain) (heap : Heap) (config : Config)
    (ops : List Operation) (order : RecordSet) :
    let w := (start heap m.provider config).run ops
    let s := { w.session with records := order }
    (∀ q, q ∈ order ↔ q ∈ w.session.records) → m.typing.Coherent ⟨w.heap, s⟩ →
    (∀ x, s.Tracks x → ∃ n, s.LiesIn w.heap x n) ∧
      ∀ n x, s.LiesIn w.heap x n → ∃ t, s.purge w.heap x = ⟨t, .ok ()⟩ ∧
        s.Without (s.Component w.heap n) t ∧
        (∀ q, q ∈ t.records ↔
          q ∈ s.records ∧ ¬ ∃ i, s.Connected w.heap n i ∧ q.touches i = true) ∧
        m.typing.Coherent ⟨w.heap, t⟩ ∧
        ∀ y, s.LiesIn w.heap y n → ∃ u, s.purge w.heap y = ⟨u, .ok ()⟩ ∧ t.Agrees u := by
  intro w s horder hcoherent
  obtain ⟨hprovider, hbacked, hindex⟩ : s.provider = m.provider ∧ s.Backed ∧ s.IndexCoherent :=
    run_reordered m heap config ops horder
  have hs : s.Grounded w.heap :=
    grounded (w := ⟨w.heap, s⟩) hprovider hcoherent.holds hbacked hcoherent.ends
  have hpurge : ∀ n x, s.LiesIn w.heap x n → ∃ t, s.purge w.heap x = ⟨t, .ok ()⟩ ∧
      s.Without (s.Component w.heap n) t ∧ t.IndexCoherent := by
    intro n x hx
    obtain ⟨_, _, hget, -⟩ := id hx
    obtain ⟨t, ht, hwithout⟩ := hs.purge (hs.wanted_of_get? hget)
    exact ⟨t, ht, hwithout.congr (reached_iff_component hcoherent.anchored hs hx),
      (shrinks_of_purge ht).keeps .of_loses hindex⟩
  refine ⟨?_, fun n x hx => ?_⟩
  · rintro x ⟨reg, i, hx⟩
    cases reg with
    | node => exact ⟨i, .node, i, hx, .refl i⟩
    | relationship =>
      obtain ⟨a, b, hr⟩ := hcoherent.anchored i (Option.isSome_iff_exists.mpr ⟨x, hx⟩)
      exact ⟨a, .relationship, i, hx, a, b, hr.joins, .refl a⟩
  · obtain ⟨t, ht, hwithout, htindex⟩ := hpurge n x hx
    refine ⟨t, ht, hwithout, fun q => ?_, coherent_without hcoherent hwithout, fun y hy => ?_⟩
    · rw [hwithout.mem_records]
      exact and_congr_right fun hq =>
        not_congr (hangsOn_component_iff hcoherent.anchored hs hq)
    · obtain ⟨u, hu, hwithout', huindex⟩ := hpurge n y hy
      exact ⟨u, hu, hwithout.agrees hwithout' htindex huindex⟩

/-- The two acquainted persons, and a third whom the second likes. The liking is a record and no
relationship entity. -/
def likingAThird : List Operation :=
  acquainted ++ [.create { typeName := ⟨"Person"⟩, id := some 3 }, .registerNode ⟨3⟩,
    .addRecord ⟨2, 3, ⟨"LIKES"⟩, none⟩]

theorem likingAThird_follows :
    (start twoPersons acquaintance.provider .standard).Follows acquaintance.typing.Allows
      likingAThird :=
  follows_append.mpr ⟨acquainted_follows, trivial, person_typing, trivial, trivial⟩

/-- From the acquaintance as from either person the same goes, and the third person stays. -/
theorem purge_component_of_acquainted :
    let w := (start twoPersons acquaintance.provider .standard).run likingAThird
    w.session.LiesIn w.heap ⟨2⟩ 1 ∧ w.session.LiesIn w.heap ⟨1⟩ 1 ∧
      ∃ t u, w.session.purge w.heap ⟨2⟩ = ⟨t, .ok ()⟩ ∧ w.session.purge w.heap ⟨1⟩ = ⟨u, .ok ()⟩ ∧
        t.Agrees u ∧ w.session.Without (w.session.Component w.heap 1) t ∧
        t.nodes.get? 3 = some ⟨3⟩ := by
  intro w
  have htracked : ∀ r h, w.session.relationships.get? r = some h → r = 5 ∧ h = ⟨2⟩ := by
    intro r h hh
    have hentry : (r, h) ∈ [((5 : NativeId), Handle.mk 2)] := Table.get?_eq_some_iff.mp hh
    exact Prod.mk.inj (List.mem_singleton.mp hentry)
  have hends : w.session.endpoints (w.heap.get ⟨2⟩) = .ok (some ⟨0⟩, some ⟨1⟩) := rfl
  have hjoins : w.session.Joins w.heap 5 1 2 := ⟨⟨2⟩, ⟨0⟩, ⟨1⟩, rfl, hends, rfl, rfl⟩
  have hcoherent : acquaintance.typing.Coherent w := by
    refine ⟨Typing.holds_run acquaintance.typing_borneOut likingAThird_follows, ?_, ?_⟩
    · intro r h k hh hk
      obtain ⟨-, rfl⟩ := htracked r h hh
      rcases (endOf_iff hends).mp hk with hk | hk <;> obtain rfl := Option.some.inj hk <;>
        exact person_typing
    · intro r hr
      obtain ⟨h, hh⟩ := Option.isSome_iff_exists.mp hr
      obtain ⟨rfl, rfl⟩ := htracked r h hh
      exact ⟨1, 2, hjoins, rfl, rfl, ⟨knows, by decide, rfl, rfl⟩, ⟨knows, by decide, rfl, rfl⟩,
        by decide⟩
  have hknows : w.session.LiesIn w.heap ⟨2⟩ 1 :=
    ⟨.relationship, 5, rfl, 1, 2, hjoins, .refl _⟩
  have hsecond : w.session.LiesIn w.heap ⟨1⟩ 1 := ⟨.node, 2, rfl, .rel _ _ ⟨5, hjoins⟩⟩
  -- no edge leads to the third person or from it
  have hapart : ∀ a b, w.session.Connected w.heap a b → (a = 3 ↔ b = 3) := by
    refine fun a b hab => hab.congr (P := fun i => i = 3) fun r a b hr => ?_
    obtain ⟨h, _, _, hh, -⟩ := id hr
    obtain ⟨rfl, -⟩ := htracked r h hh
    obtain ⟨rfl, rfl⟩ := hjoins.unique hr
    decide
  obtain ⟨-, hpurge⟩ := run_purge_component acquaintance twoPersons .standard likingAThird
    w.session.records (fun _ => Iff.rfl) hcoherent
  obtain ⟨t, ht, hwithout, -, -, hsame⟩ := hpurge 1 ⟨2⟩ hknows
  obtain ⟨u, hu, hagrees⟩ := hsame ⟨1⟩ hsecond
  have hthird : (t.register .node).get? 3 = some ⟨3⟩ :=
    hwithout.get?_register.mpr ⟨rfl, fun h => absurd ((hapart 1 3 h).mpr rfl) (by decide)⟩
  exact ⟨hknows, hsecond, t, u, ht, hu, hagrees, hwithout, hthird⟩

end World

end ObjectGraph
