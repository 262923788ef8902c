import ObjectGraph.Proofs.Agreement
import ObjectGraph.Proofs.Successive
import Mathlib.Control.Monad.Basic

/-!
# Purging by another object

The object by which an entity is purged need not be the one that is tracked: any object of the same type
with the same id stands for the same key (`Twins`). From a node only its records lead on, and they are
the session's. But where a relationship entity starts and ends is asked of the object at hand, so a twin
with other references takes other nodes along.

A purge by any object is therefore a purge by a tracked one, in the session with the object in the place
of its twin (`Session.standIn`, `purge_standIn`). So it takes what is reached from the object there
(`Grounded.purge_any`), and two twins agree if they start and end at the same ids
(`Reached.twin`).
-/

set_option autoImplicit false

namespace ObjectGraph

namespace Session

/-- Two objects for one identity: they are of one type, and carry the same id if any. -/
structure Twins (heap : Heap) (x y : Handle) : Prop where
  typeName : (heap.get y).typeName = (heap.get x).typeName
  id : (heap.get y).id = (heap.get x).id

/-- The session with an object in the place of the relationship entity that is tracked under the key of
the object, if there is one. -/
def standIn (s : Session) (heap : Heap) (x : Handle) : Session :=
  match (heap.get x).id, s.provider.isRelationshipType (heap.get x).typeName with
  | some r, .ok true =>
    if s.relationships.contains r then { s with relationships := s.relationships.insert r x } else s
  | _, _ => s

/-- The entity starts or ends at an object with the id. -/
def EndsAt (s : Session) (heap : Heap) (x : Handle) (j : NativeId) : Prop :=
  ∃ k, s.EndOf heap x k ∧ (heap.get k).id = some j

section StandIn

variable {s t : Session} {heap : Heap} {x y : Handle}

theorem standIn_cases (s : Session) (heap : Heap) (x : Handle) :
    (s.standIn heap x = s ∧
      ∀ r, s.StandsFor heap x .relationship r → s.relationships.contains r = false) ∨
    ∃ r, s.StandsFor heap x .relationship r ∧ s.relationships.contains r = true ∧
      s.standIn heap x = { s with relationships := s.relationships.insert r x } := by
  unfold standIn
  split
  next r hid htype =>
    have hkey : s.StandsFor heap x .relationship r := ⟨hid, htype⟩
    split
    next hin => exact .inr ⟨r, hkey, hin, rfl⟩
    next hout =>
      refine .inl ⟨rfl, fun r' hkey' => ?_⟩
      obtain ⟨-, rfl⟩ := hkey.unique hkey'
      exact Bool.not_eq_true _ ▸ hout
  next hno => exact .inl ⟨rfl, fun r hkey => (hno r hkey.1 hkey.2).elim⟩

theorem provider_standIn : (s.standIn heap x).provider = s.provider := by
  rcases s.standIn_cases heap x with ⟨heq, -⟩ | ⟨r, -, -, heq⟩ <;> rw [heq]

theorem records_standIn : (s.standIn heap x).records = s.records := by
  rcases s.standIn_cases heap x with ⟨heq, -⟩ | ⟨r, -, -, heq⟩ <;> rw [heq]

theorem nodes_standIn : (s.standIn heap x).nodes = s.nodes := by
  rcases s.standIn_cases heap x with ⟨heq, -⟩ | ⟨r, -, -, heq⟩ <;> rw [heq]

/-- The object stands under its key, and every other relationship entity under its own. -/
theorem get?_relationships_standIn {r : NativeId} {h : Handle} :
    (s.standIn heap x).relationships.get? r = some h ↔
      (s.StandsFor heap x .relationship r ∧ s.relationships.contains r = true ∧ h = x) ∨
        ¬ s.StandsFor heap x .relationship r ∧ s.relationships.get? r = some h := by
  rcases s.standIn_cases heap x with ⟨heq, hout⟩ | ⟨r', hkey, hin, heq⟩
  · rw [heq]
    constructor
    · intro hh
      refine .inr ⟨fun hkey => ?_, hh⟩
      rw [Table.contains_eq_false_iff.mp (hout r hkey)] at hh
      cases hh
    · rintro (⟨hkey, hin, -⟩ | ⟨-, hh⟩)
      · rw [hout r hkey] at hin
        cases hin
      · exact hh
  · rw [heq]
    show (s.relationships.insert r' x).get? r = some h ↔ _
    rw [Table.get?_insert]
    by_cases hr : r = r'
    · subst hr
      simp [hkey, hin, eq_comm]
    · have hnot : ¬ s.StandsFor heap x .relationship r := fun hkey' => hr (hkey'.unique hkey).2
      simp [hr, hnot]

/-- What is tracked stays tracked, and nothing else comes in. -/
theorem contains_relationships_standIn {r : NativeId} :
    (s.standIn heap x).relationships.contains r = s.relationships.contains r := by
  rcases s.standIn_cases heap x with ⟨heq, -⟩ | ⟨r', -, hin, heq⟩
  · rw [heq]
  · rw [heq]
    show ((s.relationships.insert r' x).get? r).isSome = (s.relationships.get? r).isSome
    rw [Table.get?_insert]
    split
    next hr => exact hr ▸ hin.symm
    next => rfl

theorem contains_standIn {reg : Register} {i : NativeId} :
    ((s.standIn heap x).register reg).contains i = (s.register reg).contains i := by
  cases reg with
  | node =>
    show (s.standIn heap x).nodes.contains i = _
    rw [nodes_standIn]
    rfl
  | relationship => exact contains_relationships_standIn

theorem Backed.standIn (hs : s.Backed) : (s.standIn heap x).Backed := by
  refine hs.mono (fun q hq => ?_) fun r hr => ?_
  · rwa [records_standIn] at hq
  · exact contains_relationships_standIn.trans hr

/-- The key of an object is dropped alike, whichever object stands there. -/
theorem forgetRelationship_insert {r : NativeId} (hin : s.relationships.contains r = true) :
    ({ s with relationships := s.relationships.insert r x }).forgetRelationship r =
      s.forgetRelationship r := by
  simp only [forgetRelationship, hin, Table.contains_insert_self, if_true, Table.erase_insert]

/-- A purge does not tell an object from a tracked one. -/
theorem purge_standIn : (s.standIn heap x).purge heap x = s.purge heap x := by
  rcases s.standIn_cases heap x with ⟨heq, -⟩ | ⟨r, ⟨hid, htype⟩, hin, heq⟩
  · rw [heq]
  · have hstep : (s.standIn heap x).purgeOne heap [] x = s.purgeOne heap [] x := by
      rw [heq]
      simp only [purgeOne, hid, htype, hin, Table.contains_insert_self, forgetRelationship_insert hin,
        endpoints]
      rfl
    rw [purge, purge, purgeAll_cons, purgeAll_cons, hstep]

/-! ## What goes -/

/-- Where a session is grounded it stays so with an object that has ends of node types. -/
theorem Grounded.standIn (hs : s.Grounded heap)
    (hended : ∀ r, s.StandsFor heap x .relationship r →
      ∃ start stop, s.endpoints (heap.get x) = .ok (start, stop))
    (hends : ∀ k, s.EndOf heap x k → s.provider.typing .node (heap.get k).typeName) :
    (s.standIn heap x).Grounded heap where
  standsFor {reg i h} hh := by
    rw [standsFor_congr provider_standIn]
    cases reg with
    | node =>
      have hh : (s.standIn heap x).nodes.get? i = some h := hh
      rw [nodes_standIn] at hh
      have hh : (s.register .node).get? i = some h := hh
      exact hs.standsFor hh
    | relationship =>
      rcases get?_relationships_standIn.mp hh with ⟨hkey, -, rfl⟩ | ⟨-, hh⟩
      · exact hkey
      · exact hs.relationship hh
  backed := hs.backed.standIn
  ended {r h} hh := by
    rw [endpoints_congr provider_standIn]
    rcases get?_relationships_standIn.mp hh with ⟨hkey, -, rfl⟩ | ⟨-, hh⟩
    · exact hended r hkey
    · exact hs.ended hh
  ends {r h k} hh hk := by
    rw [provider_standIn]
    rw [endOf_congr provider_standIn] at hk
    rcases get?_relationships_standIn.mp hh with ⟨-, -, rfl⟩ | ⟨-, hh⟩
    · exact hends k hk
    · exact hs.ends hh hk

/-- In its place an object of a known type can be purged. -/
theorem wanted_standIn (hknown : ∃ reg, s.provider.typing reg (heap.get x).typeName) :
    (s.standIn heap x).Wanted heap x x where
  known := by
    rw [provider_standIn]
    exact hknown
  reached := .root
  tracked {r} hkey hin := by
    rw [standsFor_congr provider_standIn] at hkey
    rw [contains_relationships_standIn] at hin
    exact get?_relationships_standIn.mpr (.inl ⟨hkey, hin, rfl⟩)

/-- What is left does not tell whose place it was. -/
theorem Without.of_standIn {gone : Register → NativeId → Prop}
    (hw : (s.standIn heap x).Without gone t)
    (hgone : ∀ r, s.StandsFor heap x .relationship r → s.relationships.contains r = true →
      gone .relationship r) : s.Without gone t := by
  rcases s.standIn_cases heap x with ⟨heq, -⟩ | ⟨r, hkey, hin, heq⟩
  · rwa [heq] at hw
  · have hget := @hw.get?_register
    rw [heq] at hw
    refine { hw with get?_register := fun {reg i k} => hget.trans ?_ }
    cases reg with
    | node =>
      show (s.standIn heap x).nodes.get? i = some k ∧ _ ↔ _
      rw [nodes_standIn]
      exact Iff.rfl
    | relationship =>
      refine and_congr_left fun hstays => get?_relationships_standIn.trans ⟨?_, fun hk => .inr ⟨?_, hk⟩⟩
      · rintro (⟨hkey', hin', -⟩ | ⟨-, hk⟩)
        · exact absurd (hgone i hkey' hin') hstays
        · exact hk
      · exact fun hkey' => hstays (hgone i hkey' (Option.isSome_iff_exists.mpr ⟨k, hk⟩))

theorem standIn_reorder {order : RecordSet} :
    ({ s with records := order }).standIn heap x = { s.standIn heap x with records := order } := by
  unfold standIn
  dsimp only
  split
  · split <;> rfl
  · rfl

/-- A purge by any object of a known type succeeds, in whichever order the records are gone through, and
what goes is what is reached from the object in the place of its twin. -/
theorem Grounded.purge_any (hs : s.Grounded heap)
    (hknown : ∃ reg, s.provider.typing reg (heap.get x).typeName)
    (hended : ∀ r, s.StandsFor heap x .relationship r →
      ∃ start stop, s.endpoints (heap.get x) = .ok (start, stop))
    (hends : ∀ k, s.EndOf heap x k → s.provider.typing .node (heap.get k).typeName)
    {order : RecordSet} (horder : ∀ q, q ∈ order ↔ q ∈ s.records) :
    ∃ t, ({ s with records := order }).purge heap x = ⟨t, .ok ()⟩ ∧
      s.Without ((s.standIn heap x).Reached heap x) t := by
  have horder' : ∀ q, q ∈ order ↔ q ∈ (s.standIn heap x).records := by
    rw [records_standIn]
    exact horder
  obtain ⟨t, hpurge, hwithout⟩ :=
    (hs.standIn hended hends).purge_reordered (wanted_standIn hknown) horder'
  refine ⟨t, ?_, hwithout.of_standIn fun r hkey hin => ?_⟩
  · rw [← purge_standIn, standIn_reorder]
    exact hpurge
  · exact .root ((standsFor_congr provider_standIn).mpr hkey) (contains_standIn.trans hin)

/-! ## Twins -/

theorem Twins.symm (htwins : Twins heap x y) : Twins heap y x :=
  ⟨htwins.typeName.symm, htwins.id.symm⟩

theorem Twins.standsFor (htwins : Twins heap x y) {reg : Register} {i : NativeId} :
    s.StandsFor heap y reg i ↔ s.StandsFor heap x reg i := by
  unfold StandsFor
  rw [htwins.id, htwins.typeName]

/-- What is reached from an object in its place is reached from a twin in the same place that starts and
ends wherever the object does. -/
theorem Reached.twin (htwins : Twins heap x y)
    (hends : ∀ r, s.StandsFor heap x .relationship r → s.relationships.contains r = true →
      ∀ j, s.EndsAt heap x j → s.EndsAt heap y j)
    {reg : Register} {i : NativeId} (h : (s.standIn heap x).Reached heap x reg i) :
    (s.standIn heap y).Reached heap y reg i := by
  induction h with
  | root hkey hin =>
    rw [standsFor_congr provider_standIn] at hkey
    exact .root ((standsFor_congr provider_standIn).mpr (htwins.standsFor.mpr hkey))
      (contains_standIn.trans (contains_standIn.symm.trans hin))
  | named _ hq ht hr ih =>
    rw [records_standIn] at hq
    exact .named ih (records_standIn.symm ▸ hq) ht hr
  | @endOf r j h k _ hh hk hid hin ih =>
    have hin' : (s.standIn heap y).nodes.contains j = true := by
      rw [nodes_standIn] at hin ⊢
      exact hin
    rw [endOf_congr provider_standIn] at hk
    rcases get?_relationships_standIn.mp hh with ⟨hkey, htracked, rfl⟩ | ⟨hno, hh⟩
    · obtain ⟨k', hk', hid'⟩ := hends r hkey htracked j ⟨k, hk, hid⟩
      have hy : (s.standIn heap y).relationships.get? r = some y :=
        get?_relationships_standIn.mpr (.inl ⟨htwins.standsFor.mpr hkey, htracked, rfl⟩)
      exact .endOf ih hy ((endOf_congr provider_standIn).mpr hk') hid' hin'
    · have hh' : (s.standIn heap y).relationships.get? r = some h :=
        get?_relationships_standIn.mpr (.inr ⟨fun hkey => hno (htwins.standsFor.mp hkey), hh⟩)
      exact .endOf ih hh' ((endOf_congr provider_standIn).mpr hk) hid hin'

theorem reached_iff_of_twins (htwins : Twins heap x y)
    (hends : ∀ r, s.StandsFor heap x .relationship r → s.relationships.contains r = true →
      ∀ j, s.EndsAt heap x j ↔ s.EndsAt heap y j) (reg : Register) (i : NativeId) :
    (s.standIn heap x).Reached heap x reg i ↔ (s.standIn heap y).Reached heap y reg i := by
  constructor
  · exact Reached.twin htwins fun r hkey hin j => (hends r hkey hin j).mp
  · exact Reached.twin htwins.symm fun r hkey hin j =>
      (hends r (htwins.standsFor.mp hkey) hin j).mpr

/-- Only tracked keys are reached. -/
theorem Reached.contains (hs : s.Backed) {reg : Register} {i : NativeId}
    (h : s.Reached heap x reg i) : (s.register reg).contains i = true := by
  cases h with
  | root _ hin => exact hin
  | named _ hq _ hr => exact hs _ hq _ hr
  | endOf _ _ _ _ hin => exact hin

/-- What two purges leave agrees exactly if the same is reached. -/
theorem agrees_iff_reached {u : Session} (hs : s.Backed)
    (ht : s.Without ((s.standIn heap x).Reached heap x) t)
    (hu : s.Without ((s.standIn heap y).Reached heap y) u) (htc : t.IndexCoherent)
    (huc : u.IndexCoherent) :
    t.Agrees u ↔ ∀ reg i, (s.standIn heap x).Reached heap x reg i ↔
      (s.standIn heap y).Reached heap y reg i := by
  have hcontains : ∀ z reg i, (s.standIn heap z).Reached heap z reg i →
      (s.register reg).contains i = true := by
    intro z reg i hreached
    exact contains_standIn.symm.trans (hreached.contains hs.standIn)
  refine ⟨fun h reg i => ⟨fun hx => ?_, fun hy => ?_⟩, fun hiff => (ht.congr hiff).agrees hu htc huc⟩
  · exact (ht.gone_iff_of_agrees hu h (hcontains x reg i hx)).mp hx
  · exact (ht.gone_iff_of_agrees hu h (hcontains y reg i hy)).mpr hy

end StandIn

end Session

namespace World

open Session

/-- **Twins take the same along if they start and end at the same ids.** Callers have kept to the declared
types and to the ids, and the starts and ends of the tracked relationship entities, and of two twins of a
declared type, are of node types. Then a purge by either twin succeeds, in whichever order the records
are gone through, and takes what is reached from the twin in the place of what is tracked under its key.
So the two purges agree exactly if the same is reached from both twins, each in that place. They agree in
particular if the twins are nodes, if nothing is tracked under their key, or if they start and end at the
same ids. -/
theorem run_purge_twins (m : Schema.Domain) (heap : Heap) (config : Config) (ops : List Operation)
    (hops : (start heap m.provider config).Follows m.typing.Allows ops) (order order' : RecordSet) :
    let w := (start heap m.provider config).run ops
    let s := w.session
    (∀ q, q ∈ order ↔ q ∈ s.records) → (∀ q, q ∈ order' ↔ q ∈ s.records) →
    (∀ r h k, s.relationships.get? r = some h → s.EndOf w.heap h k →
      m.typing .node (w.heap.get k).typeName) →
    ∀ reg x y, m.typing reg (w.heap.get x).typeName → Twins w.heap x y →
      (∀ k, s.EndOf w.heap x k ∨ s.EndOf w.heap y k → m.typing .node (w.heap.get k).typeName) →
      ∃ t u, ({ s with records := order }).purge w.heap x = ⟨t, .ok ()⟩ ∧
        ({ s with records := order' }).purge w.heap y = ⟨u, .ok ()⟩ ∧
        s.Without ((s.standIn w.heap x).Reached w.heap x) t ∧
        s.Without ((s.standIn w.heap y).Reached w.heap y) u ∧
        (t.Agrees u ↔ ∀ reg i, (s.standIn w.heap x).Reached w.heap x reg i ↔
          (s.standIn w.heap y).Reached w.heap y reg i) ∧
        (reg = .node ∨ s.StandsForNothing w.heap x ∨
            (∀ j, s.EndsAt w.heap x j ↔ s.EndsAt w.heap y j) →
          t.Agrees u) := by
  intro w s horder horder' hends reg x y htype htwins htwinEnds
  have hprovider : s.provider = m.provider := provider_run (start heap m.provider config) ops
  have hbacked : s.Backed := run_backed heap m.provider config ops
  have hs : s.Grounded w.heap :=
    grounded hprovider (Typing.holds_run m.typing_borneOut hops) hbacked hends
  have hsound : m.typing.BorneOut s.provider := by
    rw [hprovider]
    exact m.typing_borneOut
  -- what each of the twins takes along, taken by itself
  have hpurge : ∀ z, m.typing reg (w.heap.get z).typeName →
      (∀ k, s.EndOf w.heap z k → m.typing .node (w.heap.get k).typeName) →
      ∀ order : RecordSet, (∀ q, q ∈ order ↔ q ∈ s.records) →
      ∃ t, ({ s with records := order }).purge w.heap z = ⟨t, .ok ()⟩ ∧
        s.Without ((s.standIn w.heap z).Reached w.heap z) t ∧ t.IndexCoherent := by
    intro z hz hzends order horder
    have hended : ∀ r, s.StandsFor w.heap z .relationship r →
        ∃ start stop, s.endpoints (w.heap.get z) = .ok (start, stop) := by
      intro r hkey
      cases reg with
      | node => exact absurd (hsound _ _ hz) hkey.not_node
      | relationship => exact endpoints_of_typing hprovider hz
    obtain ⟨t, ht, hwithout⟩ := hs.purge_any ⟨reg, hsound _ _ hz⟩ hended
      (fun k hk => hsound _ _ (hzends k hk)) horder
    obtain ⟨-, -, hindex⟩ := run_reordered m heap config ops horder
    exact ⟨t, ht, hwithout, (shrinks_of_purge ht).keeps .of_loses hindex⟩
  obtain ⟨t, ht, hwithout, htindex⟩ := hpurge x htype (fun k hk => htwinEnds k (.inl hk)) order horder
  obtain ⟨u, hu, hwithout', huindex⟩ :=
    hpurge y (htwins.typeName ▸ htype) (fun k hk => htwinEnds k (.inr hk)) order' horder'
  have hagrees := agrees_iff_reached hbacked hwithout hwithout' htindex huindex
  refine ⟨t, u, ht, hu, hwithout, hwithout', hagrees, fun halike => ?_⟩
  refine hagrees.mpr (reached_iff_of_twins htwins fun r hkey hin => ?_)
  rcases halike with rfl | hnothing | hsame
  · exact absurd (hsound _ _ htype) hkey.not_node
  · have hout : s.relationships.get? r = none := hnothing .relationship r hkey
    rw [Table.contains, hout] at hin
    cases hin
  · exact hsame

/-- The acquaintance comes twice more as another object: first without its ends, then with an object of
its own for the first person. -/
def twinned : List Operation :=
  acquainted ++ [.create { typeName := ⟨"Knows"⟩, id := some 5 },
    .create { typeName := ⟨"Person"⟩, id := some 1 },
    .create { typeName := ⟨"Knows"⟩, id := some 5,
              references := .ofList [("from", ⟨4⟩), ("to", ⟨1⟩)] }]

theorem twinned_follows :
    (start twoPersons acquaintance.provider .standard).Follows acquaintance.typing.Allows twinned :=
  follows_append.mpr ⟨acquainted_follows, trivial, trivial, trivial, trivial⟩

/-- By the acquaintance itself both persons go. By its twin without ends the acquaintance goes, and both
persons stay. -/
theorem purge_twin_without_ends :
    let w := (start twoPersons acquaintance.provider .standard).run twinned
    (start twoPersons acquaintance.provider .standard).Follows acquaintance.typing.Allows twinned ∧
      Twins w.heap ⟨2⟩ ⟨3⟩ ∧ acquaintance.typing .relationship (w.heap.get ⟨2⟩).typeName ∧
      w.session.endpoints (w.heap.get ⟨2⟩) = .ok (some ⟨0⟩, some ⟨1⟩) ∧
      w.session.endpoints (w.heap.get ⟨3⟩) = .ok (none, none) ∧
      let t := w.session.purge w.heap ⟨2⟩
      let u := w.session.purge w.heap ⟨3⟩
      t.answer = .ok () ∧ u.answer = .ok () ∧
        t.session.nodes.get? 1 = none ∧ u.session.nodes.get? 1 = some ⟨0⟩ ∧
        ¬ t.session.Agrees u.session := by
  intro w
  refine ⟨twinned_follows, ⟨rfl, rfl⟩, knows_typing, rfl, rfl, ?_⟩
  intro t u
  have hgone : t.session.nodes.get? 1 = none := by decide +kernel
  have hstays : u.session.nodes.get? 1 = some ⟨0⟩ := by decide +kernel
  refine ⟨by decide +kernel, by decide +kernel, hgone, hstays, fun h => ?_⟩
  have hsame : t.session.nodes.get? 1 = u.session.nodes.get? 1 := h.register .node 1
  rw [hgone, hstays] at hsame
  cases hsame

/-- By its other twin the same goes as by the acquaintance itself, though one of its ends is not the
person that is tracked. -/
theorem purge_twin_with_ends :
    let w := (start twoPersons acquaintance.provider .standard).run twinned
    ∃ t u, w.session.purge w.heap ⟨2⟩ = ⟨t, .ok ()⟩ ∧ w.session.purge w.heap ⟨5⟩ = ⟨u, .ok ()⟩ ∧
      t.Agrees u ∧ u.nodes.get? 1 = none := by
  intro w
  have hends : w.session.endpoints (w.heap.get ⟨2⟩) = .ok (some ⟨0⟩, some ⟨1⟩) := rfl
  have hends' : w.session.endpoints (w.heap.get ⟨5⟩) = .ok (some ⟨4⟩, some ⟨1⟩) := rfl
  have hpersons : ∀ k, w.session.EndOf w.heap ⟨2⟩ k ∨ w.session.EndOf w.heap ⟨5⟩ k →
      acquaintance.typing .node (w.heap.get k).typeName := by
    intro k hk
    rw [endOf_iff hends, endOf_iff hends'] at hk
    rcases hk with (hk | hk) | (hk | hk) <;> obtain rfl := Option.some.inj hk <;> exact person_typing
  have htracked : ∀ r h, w.session.relationships.get? r = some h → h = ⟨2⟩ := by
    intro r h hh
    have hentry : (r, h) ∈ [((5 : NativeId), Handle.mk 2)] := Table.get?_eq_some_iff.mp hh
    exact (Prod.mk.inj (List.mem_singleton.mp hentry)).2
  obtain ⟨t, u, ht, hu, -, -, -, hagrees⟩ :=
    run_purge_twins acquaintance twoPersons .standard twinned twinned_follows w.session.records
      w.session.records (fun _ => Iff.rfl) (fun _ => Iff.rfl)
      (fun r h k hh hk => hpersons k (.inl (htracked r h hh ▸ hk))) .relationship ⟨2⟩ ⟨5⟩
      knows_typing ⟨rfl, rfl⟩ hpersons
  have hsameIds : ∀ j, w.session.EndsAt w.heap ⟨2⟩ j ↔ w.session.EndsAt w.heap ⟨5⟩ j := by
    intro j
    have hids : (w.heap.get ⟨0⟩).id = (w.heap.get ⟨4⟩).id := rfl
    simp only [EndsAt, endOf_iff hends, endOf_iff hends', or_and_right, exists_or, Option.some.injEq,
      exists_eq_left', hids]
  have halike : t.Agrees u := hagrees (.inr (.inr hsameIds))
  have hgone : t.nodes.get? 1 = none := by
    have hpurge : (w.session.purge w.heap ⟨2⟩).session.nodes.get? 1 = none := by decide +kernel
    rwa [ht] at hpurge
  exact ⟨t, u, ht, hu, halike, (halike.register .node 1).symm.trans hgone⟩

end World

end ObjectGraph
