import ObjectGraph.Proofs.Cascade
import ObjectGraph.Proofs.IndexCoherence

/-!
# Purges one after the other

A purge shrinks the session that the next one starts from: an entity may be gone by the time it is to
be purged, and so may records that it hung together by with others. Still nothing is missed. Whatever an
entity reached at first, it reaches in what is left, unless it is gone already; and what is gone took
along all that it led to. So purging some entities in any order takes what is reached from any of them
in the session as it stood before the first (`purge_each`).
-/

set_option autoImplicit false

namespace ObjectGraph.Session

/-- The tracked keys that hang together with one of some entities. -/
def ReachedFrom (s : Session) (heap : Heap) (roots : Handle → Prop) : Register → NativeId → Prop :=
  fun reg i => ∃ x, roots x ∧ s.Reached heap x reg i

section Rest

variable {s t : Session} {heap : Heap} {roots : Handle → Prop} {x : Handle} {reg : Register}
  {i : NativeId}

theorem reachedFrom_congr {roots' : Handle → Prop} (h : ∀ x, roots x ↔ roots' x) (reg : Register)
    (i : NativeId) : s.ReachedFrom heap roots reg i ↔ s.ReachedFrom heap roots' reg i :=
  exists_congr fun x => and_congr_left fun _ => h x

/-- From no entity nothing is reached. -/
theorem without_reachedFrom_nothing (s : Session) (heap : Heap) :
    s.Without (s.ReachedFrom heap fun _ => False) s :=
  (Without.nothing s).congr fun _ _ => ⟨False.elim, fun ⟨_, hno, _⟩ => hno⟩

/-- Whatever is reached from an entity whose own key is reached is reached. -/
theorem Reached.absorbed (h : s.Reached heap x reg i)
    (hkey : ∀ {reg i}, s.StandsFor heap x reg i → (s.register reg).contains i = true →
      s.ReachedFrom heap roots reg i) : s.ReachedFrom heap roots reg i := by
  induction h with
  | root hx hin => exact hkey hx hin
  | named _ hq ht hr ih =>
    obtain ⟨y, hy, hn⟩ := ih
    exact ⟨y, hy, .named hn hq ht hr⟩
  | endOf _ hh hk hid hin ih =>
    obtain ⟨y, hy, hr⟩ := ih
    exact ⟨y, hy, .endOf hr hh hk hid hin⟩

/-- In what is left nothing is reached that was not reached before. -/
theorem Reached.of_without {gone : Register → NativeId → Prop} (hw : s.Without gone t)
    (h : t.Reached heap x reg i) : s.Reached heap x reg i := by
  induction h with
  | root hkey hin =>
    exact .root ((standsFor_congr hw.provider).mp hkey) (hw.contains_register.mp hin).1
  | named _ hq ht hr ih => exact .named ih (hw.mem_records.mp hq).1 ht hr
  | endOf _ hh hk hid hin ih =>
    exact .endOf ih (hw.get?_relationships.mp hh).1 ((endOf_congr hw.provider).mp hk) hid
      (hw.contains_nodes.mp hin).1

/-- What was reached and is not gone is reached in what is left: whatever has gone took along all that
it led to. -/
theorem Reached.in_rest (hw : s.Without (s.ReachedFrom heap roots) t)
    (h : s.Reached heap x reg i) : s.ReachedFrom heap roots reg i ∨ t.Reached heap x reg i := by
  induction h with
  | @root reg i hkey hin =>
    by_cases hgone : s.ReachedFrom heap roots reg i
    · exact .inl hgone
    · exact .inr (.root ((standsFor_congr hw.provider).mpr hkey)
        (hw.contains_register.mpr ⟨hin, hgone⟩))
  | @named n r q _ hq ht hr ih =>
    rcases ih with ⟨y, hy, hn⟩ | hrest
    · exact .inl ⟨y, hy, .named hn hq ht hr⟩
    · by_cases hhangs : q.HangsOn (s.ReachedFrom heap roots)
      · left
        rcases hhangs with ⟨n', ⟨y, hy, hn⟩, ht'⟩ | ⟨r', hr', hqr⟩
        · exact ⟨y, hy, .named hn hq ht' hr⟩
        · obtain rfl := Option.some.inj (hr.symm.trans hqr)
          exact hr'
      · exact .inr (.named hrest (hw.mem_records.mpr ⟨hq, hhangs⟩) ht hr)
  | @endOf r j h k hr hh hk hid hin ih =>
    by_cases hgoner : s.ReachedFrom heap roots .relationship r
    · obtain ⟨y, hy, hr⟩ := hgoner
      exact .inl ⟨y, hy, .endOf hr hh hk hid hin⟩
    · by_cases hgonej : s.ReachedFrom heap roots .node j
      · exact .inl hgonej
      · exact .inr (.endOf (ih.resolve_left hgoner) (hw.get?_relationships.mpr ⟨hh, hgoner⟩)
          ((endOf_congr hw.provider).mpr hk) hid (hw.contains_nodes.mpr ⟨hin, hgonej⟩))

/-- What is left of a grounded session is grounded. -/
theorem Grounded.without {gone : Register → NativeId → Prop} (hs : s.Grounded heap)
    (hw : s.Without gone t) : t.Grounded heap where
  standsFor hk := (standsFor_congr hw.provider).mpr (hs.standsFor (hw.get?_register.mp hk).1)
  backed q hq r hr := by
    obtain ⟨hq, hstays⟩ := hw.mem_records.mp hq
    exact hw.contains_relationships.mpr
      ⟨hs.backed q hq r hr, fun hgone => hstays (.inr ⟨r, hgone, hr⟩)⟩
  ended hk := by
    rw [endpoints_congr hw.provider]
    exact hs.ended (hw.get?_relationships.mp hk).1
  ends hh hk := by
    rw [hw.provider]
    exact hs.ends (hw.get?_relationships.mp hh).1 ((endOf_congr hw.provider).mp hk)

/-- What is left of what keeps to the types keeps to them. -/
theorem holds_without {τ : Typing} {gone : Register → NativeId → Prop}
    (hs : τ.Holds ⟨heap, s⟩) (hw : s.Without gone t) : τ.Holds ⟨heap, t⟩ :=
  fun reg i h hh => hs reg i h (hw.get?_register.mp hh).1

/-- A tracked entity can be purged. -/
theorem Grounded.wanted_of_get? (hs : s.Grounded heap) (hx : (s.register reg).get? i = some x) :
    s.Wanted heap x x where
  known := ⟨reg, (hs.standsFor hx).2⟩
  reached := .root
  tracked := by
    intro r hkey _
    obtain ⟨rfl, rfl⟩ := (hs.standsFor hx).unique hkey
    exact hx

/-- Whoever could be purged at first can be purged from what is left. -/
theorem Wanted.without {gone : Register → NativeId → Prop} (hx : s.Wanted heap x x)
    (hw : s.Without gone t) : t.Wanted heap x x where
  known := by
    rw [hw.provider]
    exact hx.known
  reached := .root
  tracked := by
    intro r hkey hin
    obtain ⟨hin, hstays⟩ := hw.contains_relationships.mp hin
    exact hw.get?_relationships.mpr
      ⟨hx.tracked ((standsFor_congr hw.provider).mp hkey) hin, hstays⟩

/-- One more purge takes what is reached from one more entity. -/
theorem Grounded.purge_next (hs : s.Grounded heap) (hw : s.Without (s.ReachedFrom heap roots) t)
    (hx : s.Wanted heap x x) : ∃ u, t.purge heap x = ⟨u, .ok ()⟩ ∧
      s.Without (s.ReachedFrom heap fun y => roots y ∨ y = x) u := by
  obtain ⟨u, hpurge, hu⟩ := (hs.without hw).purge (hx.without hw)
  refine ⟨u, hpurge, (hw.trans hu).congr fun reg i => ⟨?_, ?_⟩⟩
  · rintro (⟨y, hy, hreached⟩ | hreached)
    · exact ⟨y, .inl hy, hreached⟩
    · exact ⟨x, .inr rfl, hreached.of_without hw⟩
  · rintro ⟨y, hy | rfl, hreached⟩
    · exact .inl ⟨y, hy, hreached⟩
    · exact hreached.in_rest hw

end Rest

/-! ## Loops that succeed -/

/-- What each round of a loop keeps, with the items that are done, holds at its end. -/
theorem forEach_induction {α : Type} {step : Session → α → Outcome Unit}
    {P : List α → Session → Prop} {items : List α}
    (hstep : ∀ {done t a}, a ∈ items → P done t → ∃ u, step t a = ⟨u, .ok ()⟩ ∧ P (done ++ [a]) u)
    {s : Session} (h : P [] s) : ∃ u, forEach step s items = ⟨u, .ok ()⟩ ∧ P items u := by
  suffices hloop : ∀ (rest done : List α) (t : Session), (∀ a ∈ rest, a ∈ items) → P done t →
      ∃ u, forEach step t rest = ⟨u, .ok ()⟩ ∧ P (done ++ rest) u from
    hloop items [] s (fun _ ha => ha) h
  intro rest
  induction rest with
  | nil =>
    intro done t _ ht
    exact ⟨t, rfl, (List.append_nil done).symm ▸ ht⟩
  | cons a rest ih =>
    intro done t hitems ht
    obtain ⟨u, hu, hpu⟩ := hstep (hitems a List.mem_cons_self) ht
    obtain ⟨v, hv, hpv⟩ := ih (done ++ [a]) u (fun b hb => hitems b (List.mem_cons_of_mem _ hb)) hpu
    refine ⟨v, ?_, List.append_cons done a rest ▸ hpv⟩
    simp only [forEach, Outcome.andThen, hu, hv]

/-- Purging some entities one after the other takes what is reached from any of them. -/
theorem Grounded.purge_each {s t : Session} {heap : Heap} {roots : Handle → Prop}
    (hs : s.Grounded heap) (hw : s.Without (s.ReachedFrom heap roots) t) {items : List Handle}
    (hitems : ∀ x ∈ items, s.Wanted heap x x) :
    ∃ u, forEach (fun s h => s.purge heap h) t items = ⟨u, .ok ()⟩ ∧
      s.Without (s.ReachedFrom heap fun x => roots x ∨ x ∈ items) u := by
  refine forEach_induction
    (P := fun done u => s.Without (s.ReachedFrom heap fun x => roots x ∨ x ∈ done) u) ?_ ?_
  · intro done u x hx hu
    obtain ⟨v, hpurge, hv⟩ := hs.purge_next hu (hitems x hx)
    refine ⟨v, hpurge, hv.congr (reachedFrom_congr fun y => ?_)⟩
    rw [List.mem_append, List.mem_singleton, or_assoc]
  · exact hw.congr (reachedFrom_congr fun y => by simp)

end ObjectGraph.Session

namespace ObjectGraph.World

open Session

/-- What every run gives a removal to start from, in whichever order the records are gone through. -/
theorem run_reordered (m : Schema.Domain) (heap : Heap) (config : Config) (ops : List Operation)
    {order : RecordSet}
    (horder : ∀ q, q ∈ order ↔ q ∈ ((start heap m.provider config).run ops).session.records) :
    let s := { ((start heap m.provider config).run ops).session with records := order }
    s.provider = m.provider ∧ s.Backed ∧ s.IndexCoherent := by
  refine ⟨provider_run (start heap m.provider config) ops, fun q hq => ?_, ?_⟩
  · exact run_backed heap m.provider config ops q ((horder q).mp hq)
  · exact (indexCoherent_run heap m.provider config ops).congr rfl rfl rfl

end ObjectGraph.World
