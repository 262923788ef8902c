import ObjectGraph.Proofs.Component

/-!
# One step away

A record leads from a node to another in either direction, and a loop leads back (`Record.Joins`).
The neighbours of a tracked node are collected by one pass over the records, from the other end of each
that touches the node. Which end is the other one depends on the node that asks, and two nodes ask in two
passes; that they answer alike comes from the records being the same, and from a node being tracked
under no other id than its own.

`Session.StepsTo` says what is one step away from an entity, and `exists_neighbours` that this is what
the session answers.
-/

set_option autoImplicit false

namespace ObjectGraph

/-! ## Records -/

namespace Record

variable {q : Record} {i j : NativeId}

/-- The record runs from the one node to the other, in either direction. -/
def Joins (q : Record) (i j : NativeId) : Prop :=
  q.startNode = i ∧ q.endNode = j ∨ q.startNode = j ∧ q.endNode = i

theorem Joins.symm (h : q.Joins i j) : q.Joins j i := Or.symm h

/-- The other end is the node that the record joins to this one. -/
theorem otherEnd?_eq_some_iff : q.otherEnd? i = some j ↔ q.Joins i j := by
  unfold otherEnd? Joins
  split
  next hend =>
    rw [Option.some.injEq]
    constructor
    · exact fun hstart => .inr ⟨hstart, hend⟩
    · rintro (⟨hstart, hend'⟩ | ⟨hstart, -⟩)
      · exact hstart.trans (hend.symm.trans hend')
      · exact hstart
  next hend =>
    split
    next hstart => simp [hstart, hend]
    next hstart => simp [hstart, hend]

end Record

/-- Nothing is repeated once repetitions are dropped. -/
theorem nodup_eraseDups {α : Type} [DecidableEq α] (l : List α) : l.eraseDups.Nodup := by
  -- along the recursion of `eraseDups`, which goes on with the filtered rest
  match l with
  | [] => exact .nil
  | a :: rest =>
    rw [List.eraseDups_cons]
    refine List.nodup_cons.mpr ⟨?_, nodup_eraseDups _⟩
    simp [List.mem_eraseDups]
termination_by l.length
decreasing_by exact Nat.lt_succ_of_le (List.length_filter_le _ _)

namespace Session

variable {m : Schema.Domain} {s t u : Session} {heap : Heap} {e x a b : Handle} {i j : NativeId}

/-! ## What is one step away -/

/-- Some record joins the two nodes. -/
def Adjacent (s : Session) (i j : NativeId) : Prop := ∃ q ∈ s.records, q.Joins i j

theorem Adjacent.symm (h : s.Adjacent i j) : s.Adjacent j i := by
  obtain ⟨q, hq, hjoins⟩ := h
  exact ⟨q, hq, hjoins.symm⟩

/-- One step leads from a tracked node along a record to a tracked node, and from a tracked relationship
entity to what it refers to as its start or its end. -/
inductive StepsTo (s : Session) (heap : Heap) (e x : Handle) : Prop
  | along {i j : NativeId} (hkey : s.StandsFor heap e .node i) (hin : s.nodes.contains i = true)
      (hjoined : s.Adjacent i j) (hx : s.nodes.get? j = some x)
  | toEnd {r : NativeId} (hkey : s.StandsFor heap e .relationship r)
      (hin : s.relationships.contains r = true) (hx : s.EndOf heap e x)

theorem stepsTo_node_iff (hkey : s.StandsFor heap e .node i) (hin : s.nodes.contains i = true) :
    s.StepsTo heap e x ↔ ∃ j, s.nodes.get? j = some x ∧ s.Adjacent i j := by
  constructor
  · intro h
    cases h with
    | along hkey' _ hjoined hx =>
      obtain ⟨-, rfl⟩ := hkey.unique hkey'
      exact ⟨_, hx, hjoined⟩
    | toEnd hkey' => exact nomatch (hkey.unique hkey').1
  · rintro ⟨j, hx, hjoined⟩
    exact .along hkey hin hjoined hx

theorem stepsTo_relationship_iff (hkey : s.StandsFor heap e .relationship i)
    (hin : s.relationships.contains i = true) : s.StepsTo heap e x ↔ s.EndOf heap e x := by
  constructor
  · intro h
    cases h with
    | along hkey' => exact nomatch (hkey.unique hkey').1
    | toEnd _ _ hx => exact hx
  · exact fun hx => .toEnd hkey hin hx

/-- From what stands for nothing that is tracked no step leads on. -/
theorem not_stepsTo (hnothing : s.StandsForNothing heap e) : ¬ s.StepsTo heap e x := by
  intro h
  cases h with
  | along hkey hin => exact hnothing.not_contains hkey hin
  | toEnd hkey hin => exact hnothing.not_contains hkey hin

/-- What a relationship entity refers to is read from the two fields that the provider knows for its
type. -/
theorem exists_endFields {start stop : Option Handle}
    (hends : s.endpoints (heap.get e) = .ok (start, stop)) :
    ∃ f g, s.provider.startField (heap.get e).typeName = .ok f ∧
      s.provider.endField (heap.get e).typeName = .ok g ∧
      ∀ x, s.EndOf heap e x ↔
        f.readReference (heap.get e) = some x ∨ g.readReference (heap.get e) = some x := by
  have hfields := hends
  unfold endpoints at hfields
  split at hfields
  · cases hfields
  next f hf =>
    split at hfields
    · cases hfields
    next g hg =>
      obtain ⟨rfl, rfl⟩ := Prod.mk.inj (Except.ok.inj hfields)
      exact ⟨f, g, hf, hg, fun x => endOf_iff hends⟩

/-! ## What the session answers -/

theorem mem_joinedNodes_iff :
    x ∈ s.joinedNodes i ↔ ∃ j, s.nodes.get? j = some x ∧ s.Adjacent i j := by
  simp only [joinedNodes, List.mem_filterMap, Option.bind_eq_some_iff,
    Record.otherEnd?_eq_some_iff, RecordSet.mem_toList, Adjacent]
  constructor
  · rintro ⟨q, hq, j, hjoins, hx⟩
    exact ⟨j, hx, q, hq, hjoins⟩
  · rintro ⟨j, hx, q, hq, hjoins⟩
    exact ⟨q, hq, j, hjoins, hx⟩

theorem neighbours_of_noId (hid : (heap.get e).id = none) : s.neighbours heap e = .ok [] := by
  simp [neighbours, hid]

theorem neighbours_of_node (hkey : s.StandsFor heap e .node i) :
    s.neighbours heap e =
      .ok (if s.nodes.contains i then (s.joinedNodes i).eraseDups else []) := by
  simp [neighbours, hkey.1, hkey.2]

theorem neighbours_of_relationship {start stop : Option Handle}
    (hkey : s.StandsFor heap e .relationship i)
    (hends : s.endpoints (heap.get e) = .ok (start, stop)) :
    s.neighbours heap e =
      .ok (if s.relationships.contains i then (start.toList ++ stop.toList).eraseDups else []) := by
  simp only [neighbours, hkey.1, hkey.2, decide_true, hends]
  split <;> rfl

/-- Each object that is one step away is among the neighbours, once, and no other. -/
theorem exists_neighbours (hp : s.provider = m.provider) {reg : Register}
    (htype : m.typing reg (heap.get e).typeName) :
    ∃ l, s.neighbours heap e = .ok l ∧ l.Nodup ∧ ∀ x, x ∈ l ↔ s.StepsTo heap e x := by
  have hnowhere : s.StandsForNothing heap e → ∀ x, x ∈ ([] : List Handle) ↔ s.StepsTo heap e x :=
    fun hnothing x => by simp [not_stepsTo hnothing]
  cases hid : (heap.get e).id with
  | none =>
    exact ⟨[], neighbours_of_noId hid, .nil, hnowhere fun _ _ hkey => nomatch hid.symm.trans hkey.1⟩
  | some i =>
    have hkey : s.StandsFor heap e reg i := ⟨hid, hp ▸ m.typing_borneOut reg _ htype⟩
    have hnothing : (s.register reg).contains i = false → s.StandsForNothing heap e := by
      intro hout reg' i' hkey'
      obtain ⟨rfl, rfl⟩ := hkey.unique hkey'
      exact Table.contains_eq_false_iff.mp hout
    cases reg with
    | node =>
      refine ⟨_, neighbours_of_node hkey, ?_⟩
      cases hin : s.nodes.contains i with
      | false => exact ⟨.nil, hnowhere (hnothing hin)⟩
      | true =>
        refine ⟨nodup_eraseDups _, fun x => ?_⟩
        rw [stepsTo_node_iff hkey hin, ← mem_joinedNodes_iff]
        exact List.mem_eraseDups
    | relationship =>
      obtain ⟨start, stop, hends⟩ := World.endpoints_of_typing hp htype
      refine ⟨_, neighbours_of_relationship hkey hends, ?_⟩
      cases hin : s.relationships.contains i with
      | false => exact ⟨.nil, hnowhere (hnothing hin)⟩
      | true =>
        refine ⟨nodup_eraseDups _, fun x => ?_⟩
        rw [stepsTo_relationship_iff hkey hin, endOf_iff hends, ← Option.mem_toList,
          ← Option.mem_toList, ← List.mem_append]
        exact List.mem_eraseDups

/-! ## Tracked nodes -/

variable (hp : s.provider = m.provider) (hs : m.typing.Holds ⟨heap, s⟩)

include hp hs

theorem standsFor_node (ha : s.nodes.get? i = some a) : s.StandsFor heap a .node i := by
  have hsound : m.typing.BorneOut s.provider := hp ▸ m.typing_borneOut
  have ha : (s.register .node).get? i = some a := ha
  exact Typing.Holds.standsFor (w := ⟨heap, s⟩) hs hsound ha

/-- From one tracked node to another leads a step if a record joins the ids that they are tracked
under. -/
theorem stepsTo_iff_adjacent (ha : s.nodes.get? i = some a) (hb : s.nodes.get? j = some b) :
    s.StepsTo heap a b ↔ s.Adjacent i j := by
  rw [stepsTo_node_iff (standsFor_node hp hs ha) (Option.isSome_iff_exists.mpr ⟨a, ha⟩)]
  constructor
  · rintro ⟨j', hb', hjoined⟩
    -- the node is tracked under its own id only
    obtain ⟨-, rfl⟩ := (standsFor_node hp hs hb).unique (standsFor_node hp hs hb')
    exact hjoined
  · exact fun hjoined => ⟨j, hb, hjoined⟩

/-- Two tracked nodes tell alike of each other. -/
theorem neighbours_symm (ha : s.nodes.get? i = some a) (hb : s.nodes.get? j = some b) :
    ∃ ofA ofB, s.neighbours heap a = .ok ofA ∧ s.neighbours heap b = .ok ofB ∧
      (b ∈ ofA ↔ a ∈ ofB) := by
  obtain ⟨ofA, hofA, -, hmemA⟩ := exists_neighbours hp (hs .node i a ha).2
  obtain ⟨ofB, hofB, -, hmemB⟩ := exists_neighbours hp (hs .node j b hb).2
  refine ⟨ofA, ofB, hofA, hofB, ?_⟩
  rw [hmemA, hmemB, stepsTo_iff_adjacent hp hs ha hb, stepsTo_iff_adjacent hp hs hb ha]
  exact ⟨Adjacent.symm, Adjacent.symm⟩

/-- What is not tracked is a neighbour of no tracked node. -/
theorem exists_neighbours_without (hb : s.nodes.get? j = some b) (ha : ¬ s.Tracks a) :
    ∃ l, s.neighbours heap b = .ok l ∧ a ∉ l := by
  obtain ⟨l, hl, -, hmem⟩ := exists_neighbours hp (hs .node j b hb).2
  refine ⟨l, hl, fun hin => ?_⟩
  have hkey := standsFor_node hp hs hb
  rw [hmem, stepsTo_node_iff hkey (Option.isSome_iff_exists.mpr ⟨b, hb⟩)] at hin
  obtain ⟨i, hi, -⟩ := hin
  exact ha ⟨.node, i, hi⟩

/-- Once it has been purged, a node is a neighbour of none that is left, also where the purge broke off
and in whatever order the rest is held. -/
theorem neighbours_of_purge {answer : Except Error Unit} (hpurge : s.purge heap a = ⟨t, answer⟩)
    (hu : t.Agrees u) (hb : u.nodes.get? j = some b) : ∃ l, u.neighbours heap b = .ok l ∧ a ∉ l := by
  have hshrinks : s.Shrinks t := shrinks_of_purge hpurge
  have ht : m.typing.Holds ⟨heap, t⟩ := fun reg k x hx => hs reg k x (hshrinks.get?_register hx)
  have hsound : m.typing.BorneOut s.provider := hp ▸ m.typing_borneOut
  have hgone : ¬ t.Tracks a :=
    Typing.Holds.not_tracks_of_purge (w := ⟨heap, s⟩) hs hsound hpurge
  exact exists_neighbours_without (hu.provider.symm.trans (hshrinks.provider.trans hp))
    (ht.of_agrees hu) hb (fun hua => hgone (hu.tracks_iff.mpr hua))

end Session

namespace World

open Session

/-- **Neighbours are told exactly, and by both sides.** In a world that a run comes to, its registers in
whatever order, let what is tracked keep to the types and to the ids. Then every entity of a concrete
type has its neighbours told, each once. Those of an entity of a node type, where its id is tracked, are
the tracked nodes that a record joins to it in either direction; those of an entity of a relationship
type, where its id is tracked, are what the start and the end field of its type refer to; any other
entity has none. Of two tracked nodes each is a neighbour of the other or neither is. And once a
tracked node has been purged, also by a purge that broke off, it is a neighbour of no tracked node. -/
theorem run_neighbours (m : Schema.Domain) (heap : Heap) (config : Config) (ops : List Operation) :
    let w := (start heap m.provider config).run ops
    m.typing.Holds w → ∀ s, w.session.Agrees s →
    (∀ e reg, m.typing reg (w.heap.get e).typeName →
      ∃ l, s.neighbours w.heap e = .ok l ∧ l.Nodup ∧
        (∀ i, reg = .node → (w.heap.get e).id = some i → s.nodes.contains i = true →
          ∀ x, x ∈ l ↔ ∃ j, s.nodes.get? j = some x ∧ (w.heap.get x).id = some j ∧
            ∃ q ∈ s.records, q.startNode = i ∧ q.endNode = j ∨ q.startNode = j ∧ q.endNode = i) ∧
        (∀ i, reg = .relationship → (w.heap.get e).id = some i → s.relationships.contains i = true →
          ∃ f g, m.provider.startField (w.heap.get e).typeName = .ok f ∧
            m.provider.endField (w.heap.get e).typeName = .ok g ∧
            ∀ x, x ∈ l ↔
              f.readReference (w.heap.get e) = some x ∨ g.readReference (w.heap.get e) = some x) ∧
        ((∀ i, (w.heap.get e).id = some i → (s.register reg).contains i = false) → l = [])) ∧
    (∀ a b i j, s.nodes.get? i = some a → s.nodes.get? j = some b →
      ∃ ofA ofB, s.neighbours w.heap a = .ok ofA ∧ s.neighbours w.heap b = .ok ofB ∧
        (b ∈ ofA ↔ a ∈ ofB)) ∧
    ∀ a i, s.nodes.get? i = some a → ∀ t answer, s.purge w.heap a = ⟨t, answer⟩ →
      ∀ u, t.Agrees u → ∀ b j, u.nodes.get? j = some b →
        ∃ l, u.neighbours w.heap b = .ok l ∧ a ∉ l := by
  intro w hholds s hagrees
  have hp : s.provider = m.provider :=
    hagrees.provider.symm.trans (provider_run (start heap m.provider config) ops)
  have hs : m.typing.Holds ⟨w.heap, s⟩ := hholds.of_agrees hagrees
  refine ⟨fun e reg htype => ?_, fun a b i j ha hb => neighbours_symm hp hs ha hb,
    fun a _ _ t answer hpurge u hu b j hb => neighbours_of_purge hp hs hpurge hu hb⟩
  obtain ⟨l, hl, hnodup, hmem⟩ := exists_neighbours hp htype
  have hkey : ∀ {i}, (w.heap.get e).id = some i → s.StandsFor w.heap e reg i :=
    fun hid => ⟨hid, hp ▸ m.typing_borneOut reg _ htype⟩
  refine ⟨l, hl, hnodup, fun i hreg hid hin x => ?_, fun i hreg hid hin => ?_, fun hout => ?_⟩
  · subst hreg
    rw [hmem, stepsTo_node_iff (hkey hid) hin]
    refine exists_congr fun j => and_congr_right fun hx => ?_
    rw [and_iff_right (hs .node j x hx).1]
    rfl
  · subst hreg
    obtain ⟨start, stop, hends⟩ := endpoints_of_typing hp htype
    obtain ⟨f, g, hf, hg, hfields⟩ := exists_endFields hends
    rw [hp] at hf hg
    refine ⟨f, g, hf, hg, fun x => ?_⟩
    rw [hmem, stepsTo_relationship_iff (hkey hid) hin, hfields]
  · refine List.eq_nil_iff_forall_not_mem.mpr fun x hx => ?_
    refine not_stepsTo (fun reg' i hkey' => ?_) ((hmem x).mp hx)
    obtain ⟨rfl, -⟩ := (hkey hkey'.1).unique hkey'
    exact Table.contains_eq_false_iff.mp (hout i hkey'.1)

/-- The second person has the first, who knows them, and the third, whom they like, for neighbours. The
acquaintance has the two that it is between. Purging the first takes the second along, and the third is
left without either. -/
theorem neighbours_likingAThird :
    let w := (start twoPersons acquaintance.provider .standard).run likingAThird
    let t := (w.session.purge w.heap ⟨0⟩).session
    (∃ l, w.session.neighbours w.heap ⟨1⟩ = .ok l ∧ l.Nodup ∧ ⟨0⟩ ∈ l ∧ ⟨3⟩ ∈ l ∧ ⟨1⟩ ∉ l) ∧
    (∃ l, w.session.neighbours w.heap ⟨2⟩ = .ok l ∧ ⟨0⟩ ∈ l ∧ ⟨1⟩ ∈ l) ∧
    (∃ ofFirst ofSecond, w.session.neighbours w.heap ⟨0⟩ = .ok ofFirst ∧
      w.session.neighbours w.heap ⟨1⟩ = .ok ofSecond ∧ (⟨1⟩ ∈ ofFirst ↔ ⟨0⟩ ∈ ofSecond)) ∧
    t.nodes.get? 3 = some ⟨3⟩ ∧ ∃ l, t.neighbours w.heap ⟨3⟩ = .ok l ∧ ⟨0⟩ ∉ l := by
  intro w t
  have hholds : acquaintance.typing.Holds w :=
    Typing.holds_run acquaintance.typing_borneOut likingAThird_follows
  obtain ⟨htold, hsymm, hpurged⟩ :=
    run_neighbours acquaintance twoPersons .standard likingAThird hholds w.session (.refl _)
  obtain ⟨l, hl, hnodup, hjoined, -, -⟩ := htold ⟨1⟩ .node person_typing
  have hjoined := hjoined 2 rfl rfl rfl
  obtain ⟨l', hl', -, -, hends, -⟩ := htold ⟨2⟩ .relationship knows_typing
  obtain ⟨f, g, hf, hg, hends⟩ := hends 5 rfl rfl rfl
  obtain rfl : .reference "from" = f := Except.ok.inj hf
  obtain rfl : .reference "to" = g := Except.ok.inj hg
  have hthird : t.nodes.get? 3 = some ⟨3⟩ := by decide +kernel
  refine ⟨⟨l, hl, hnodup, ?_, ?_, fun hself => ?_⟩,
    ⟨l', hl', (hends _).mpr (.inl rfl), (hends _).mpr (.inr rfl)⟩, hsymm ⟨0⟩ ⟨1⟩ 1 2 rfl rfl,
    hthird, hpurged ⟨0⟩ 1 rfl t _ rfl t (.refl t) ⟨3⟩ 3 hthird⟩
  · exact (hjoined _).mpr ⟨1, rfl, rfl, knows, by decide, .inr ⟨rfl, rfl⟩⟩
  · exact (hjoined _).mpr ⟨3, rfl, rfl, ⟨2, 3, ⟨"LIKES"⟩, none⟩, by decide, .inl ⟨rfl, rfl⟩⟩
  · -- neither record is a loop
    obtain ⟨j, -, hid, q, hq, hloop⟩ := (hjoined _).mp hself
    obtain rfl : 2 = j := Option.some.inj hid
    have hnone : ∀ q ∈ w.session.records.toList, q.startNode ≠ 2 ∨ q.endNode ≠ 2 := by decide
    obtain ⟨hstart, hend⟩ := or_self_iff.mp hloop
    exact (hnone q hq).elim (· hstart) (· hend)

end World

end ObjectGraph
