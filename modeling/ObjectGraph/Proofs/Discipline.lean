import ObjectGraph.Proofs.Effect

/-!
# Callers that keep to the types

A session does not look at the type of what is registered, nor at the id that a relationship entity
carries, and an entity may be changed behind its back. A caller that keeps to the types and ids hands
nodes to the register of nodes and relationship entities, under the ids that they carry, to theirs, and
leaves the id and the type of what is tracked alone; it may change anything else (`Typing.Allows`). Then each tracked entity is of a type for its register and carries the id that it is
tracked under (`Typing.Holds`), after every operation, also one that failed. What the removing
operations are given is up to the caller: a reset takes an id away, but only from an entity that it
has purged.

So an identity has one representative and an object stands for one identity: no object is tracked in two
places (`Typing.Holds.key_unique`), and what a reset leaves tracked keeps its id
(`Typing.Holds.reset`).
-/

set_option autoImplicit false

namespace ObjectGraph

open Session

/-- Which types are for which register. -/
abbrev Typing := Register → TypeName → Prop

/-- The kind of the types that a register is for. -/
def Session.Register.kind : Register → Schema.Kind
  | node => .node
  | relationship => .relationship

theorem Session.Register.kind_injective {reg reg' : Register} (h : reg.kind = reg'.kind) :
    reg = reg' := by
  cases reg <;> cases reg' <;> first | rfl | cases h

theorem Session.Register.kind_ne_interface (reg : Register) : reg.kind ≠ .interface := by
  cases reg <;> exact nofun

/-- The typing by a provider's own answers. -/
def Schema.Provider.typing (p : Schema.Provider) : Typing := fun reg name =>
  p.isRelationshipType name = .ok (decide (reg = .relationship))

/-- A provider has no type for both registers. -/
theorem Schema.Provider.typing_unique {p : Schema.Provider} {reg reg' : Register} {name : TypeName}
    (h : p.typing reg name) (h' : p.typing reg' name) : reg = reg' := by
  have heq := Except.ok.inj (h.symm.trans h')
  cases reg <;> cases reg' <;> first | rfl | exact absurd heq (by decide)

/-- The provider answers as the typing has it. -/
def Typing.BorneOut (τ : Typing) (p : Schema.Provider) : Prop :=
  ∀ reg name, τ reg name → p.typing reg name

namespace Schema

/-- The typing by declared kinds. Interfaces are for no register. -/
def Domain.typing (m : Domain) : Typing := fun reg name =>
  ∃ t, m.get? name = some t ∧ t.kind = reg.kind

/-- A domain answers by the declared kinds. -/
theorem Domain.typing_borneOut (m : Domain) : m.typing.BorneOut m.provider := by
  rintro reg name ⟨t, ht, hkind⟩
  show (m.typeInfo name).map m.holdsRelationships = .ok (decide (reg = .relationship))
  rw [Domain.typeInfo, ht]
  cases reg <;>
    simp [Except.map, Domain.holdsRelationships, TypeInfo.isInterface, TypeInfo.isRelationship, hkind,
      Register.kind]

end Schema

/-- The session tracks the object. -/
def Session.Tracks (s : Session) (h : Handle) : Prop :=
  ∃ reg i, (s.register reg).get? i = some h

namespace Typing

variable {τ : Typing} {w v : World} {op : Operation}

/-- What a caller may do who keeps to the types and to the ids. What is not tracked may be changed in
any way. -/
def Allows (τ : Typing) (w : World) : Operation → Prop
  | .registerNode h | .replaceNode h => τ .node (w.heap.get h).typeName
  | .registerRelationship h id | .replaceRelationship h id =>
    τ .relationship (w.heap.get h).typeName ∧ (w.heap.get h).id = some id
  | .edit h change => w.session.Tracks h →
    (change (w.heap.get h)).id = (w.heap.get h).id ∧
      (change (w.heap.get h)).typeName = (w.heap.get h).typeName
  | _ => True

/-- Whatever is tracked carries its id and is of a type for its register. -/
def Holds (τ : Typing) (w : World) : Prop :=
  ∀ reg i h, (w.session.register reg).get? i = some h →
    (w.heap.get h).id = some i ∧ τ reg (w.heap.get h).typeName

theorem Allows.offered (ha : τ.Allows w op) {reg : Register} {i : NativeId} {h : Handle}
    (ho : w.Offers reg i h op) : (w.heap.get h).id = some i ∧ τ reg (w.heap.get h).typeName := by
  cases ho with
  | registerNode hid => exact ⟨hid, ha⟩
  | replaceNode hid => exact ⟨hid, ha⟩
  | registerRelationship => exact ⟨ha.2, ha.1⟩
  | replaceRelationship => exact ⟨ha.2, ha.1⟩

/-- Under a typing that the provider bears out, each tracked entity stands for its key. -/
theorem Holds.standsFor (hw : τ.Holds w)
    (hsound : τ.BorneOut w.session.provider) {reg : Register}
    {i : NativeId} {h : Handle} (hk : (w.session.register reg).get? i = some h) :
    w.session.StandsFor w.heap h reg i :=
  ⟨(hw reg i h hk).1, hsound reg _ (hw reg i h hk).2⟩

theorem Holds.start (heap : Heap) (provider : Schema.Provider) (config : Config) :
    τ.Holds (.start heap provider config) := by
  intro reg i h hk
  cases reg <;> cases hk

/-- A tracked entity keeps its id and its type. -/
theorem Holds.get_after (hw : τ.Holds w)
    (hsound : τ.BorneOut w.session.provider) (ha : τ.Allows w op)
    (he : w.Effect op v) {reg : Register} {i : NativeId} {h : Handle}
    (hold : (w.session.register reg).get? i = some h)
    (hk : (v.session.register reg).get? i = some h) :
    (v.heap.get h).id = (w.heap.get h).id ∧ (v.heap.get h).typeName = (w.heap.get h).typeName := by
  have halloc : w.heap.Allocated h := Heap.allocated_of_id (hw reg i h hold).1
  cases he with
  | created e => exact ⟨by rw [Heap.get_alloc halloc], by rw [Heap.get_alloc halloc]⟩
  | edited k change =>
    by_cases hkh : h = k
    · subst hkh
      rw [Heap.get_modify_self halloc]
      exact ha ⟨reg, i, hold⟩
    · rw [Heap.get_modify_of_ne hkh]
      exact ⟨rfl, rfl⟩
  | reset k hp =>
    by_cases hkh : h = k
    · -- what has been purged is not tracked any more
      subst hkh
      rw [untracked_of_purge hp (hw.standsFor hsound hold)] at hk
      cases hk
    · rw [Heap.get_modify_of_ne hkh]
      exact ⟨rfl, rfl⟩
  | _ => exact ⟨rfl, rfl⟩

theorem Holds.after (hw : τ.Holds w)
    (hsound : τ.BorneOut w.session.provider) (ha : τ.Allows w op)
    (he : w.Effect op v) : τ.Holds v := by
  intro reg i h hk
  rcases he.get?_register hk with hold | hoffer
  · obtain ⟨hid, htype⟩ := hw.get_after hsound ha he hold hk
    rw [hid, htype]
    exact hw reg i h hold
  · -- an operation that offers an entity leaves the heap alone
    have hheap : v.heap = w.heap := by
      cases he <;> first | rfl | cases hoffer
    rw [hheap]
    exact ha.offered hoffer

/-- After every run of such a caller. -/
theorem holds_run {provider : Schema.Provider}
    (hsound : τ.BorneOut provider) {heap : Heap} {config : Config}
    {ops : List Operation} (hf : (World.start heap provider config).Follows τ.Allows ops) :
    τ.Holds ((World.start heap provider config).run ops) := by
  have hrun := World.run_keeps_of_follows
    (P := fun w => w.session.provider = provider ∧ τ.Holds w)
    (fun {w op} ha hw =>
      ⟨(w.effect op).provider.trans hw.1,
        hw.2.after (hw.1 ▸ hsound) ha (w.effect op)⟩)
    ⟨rfl, Holds.start heap provider config⟩ hf
  exact hrun.2

/-! ## One place for each object -/

/-- An object is tracked in one place at most. -/
theorem Holds.key_unique (hw : τ.Holds w) (hsound : τ.BorneOut w.session.provider)
    {reg reg' : Register} {i i' : NativeId} {h : Handle}
    (hh : (w.session.register reg).get? i = some h)
    (hh' : (w.session.register reg').get? i' = some h) : reg = reg' ∧ i = i' :=
  (hw.standsFor hsound hh).unique (hw.standsFor hsound hh')

/-- What has been purged is tracked nowhere, also when the purge was cut short. -/
theorem Holds.not_tracks_of_purge (hw : τ.Holds w) (hsound : τ.BorneOut w.session.provider)
    {h : Handle} {t : Session} {answer : Except Error Unit}
    (hp : w.session.purge w.heap h = ⟨t, answer⟩) : ¬ t.Tracks h := by
  rintro ⟨reg, i, hh⟩
  have hold := (shrinks_of_purge hp).get?_register hh
  rw [untracked_of_purge hp (hw.standsFor hsound hold)] at hh
  cases hh

/-- A reset takes no id from what stays tracked. The entity itself is tracked nowhere and without an id
if the reset succeeds, and keeps its id if it fails. -/
theorem Holds.reset (hw : τ.Holds w) (hsound : τ.BorneOut w.session.provider) (h : Handle)
    {heap : Heap} {t : Session} {answer : Except Error Unit}
    (hreset : w.session.reset w.heap h = (heap, ⟨t, answer⟩)) :
    (∀ k, t.Tracks k → (heap.get k).id = (w.heap.get k).id) ∧
      (answer = .ok () → ¬ t.Tracks h ∧ (heap.get h).id = none) ∧
      (∀ e, answer = .error e → (heap.get h).id = (w.heap.get h).id) := by
  unfold Session.reset at hreset
  cases hp : w.session.purge w.heap h with
  | mk u result =>
    rw [hp] at hreset
    cases result with
    | ok _ =>
      obtain ⟨rfl, hpurged⟩ := Prod.mk.inj hreset
      obtain ⟨rfl, rfl⟩ := Outcome.mk.inj hpurged
      have huntracked := hw.not_tracks_of_purge hsound hp
      refine ⟨fun k hk => ?_, fun _ => ⟨huntracked, Heap.id_modify_withId_none _ _⟩, nofun⟩
      have hne : k ≠ h := by
        rintro rfl
        exact huntracked hk
      rw [Heap.get_modify_of_ne hne]
    | error e =>
      obtain ⟨rfl, hpurged⟩ := Prod.mk.inj hreset
      obtain ⟨rfl, rfl⟩ := Outcome.mk.inj hpurged
      exact ⟨fun _ _ => rfl, nofun, fun _ _ => rfl⟩

end Typing

theorem World.provider_run (w : World) (ops : List Operation) :
    (w.run ops).session.provider = w.session.provider :=
  World.run_keeps (P := fun v => v.session.provider = w.session.provider)
    (fun {v} op hv => (v.effect op).provider.trans hv) rfl ops

/-! ## The small world keeps to its types -/

namespace World

theorem person_typing : acquaintance.typing .node ⟨"Person"⟩ := ⟨_, rfl, rfl⟩

theorem knows_typing : acquaintance.typing .relationship ⟨"Knows"⟩ := ⟨_, rfl, rfl⟩

theorem acquainted_follows :
    (start twoPersons acquaintance.provider .standard).Follows acquaintance.typing.Allows acquainted :=
  ⟨person_typing, person_typing, ⟨knows_typing, rfl⟩, trivial, trivial⟩

/-! ## Every run keeps one representative for each identity -/

/-- **An identity has one representative, and an object stands for one identity.** Callers have kept to
the declared types and to the ids, also of what they changed while it was tracked, and have given the
removing operations whatever they liked. Then what
is tracked as a node is of a node type, what is tracked as a relationship entity is of a relationship
type, each under the id that it carries, and no object is tracked in two places. A reset, of any
object, keeps it so: whatever is tracked afterwards has the id that it had, the object itself is
untracked and without an id when the reset succeeds, and it keeps its id when the reset fails. -/
theorem run_one_representative (m : Schema.Domain) (heap : Heap) (config : Config)
    (ops : List Operation)
    (hops : (start heap m.provider config).Follows m.typing.Allows ops) :
    let w := (start heap m.provider config).run ops
    (∀ reg i h, (w.session.register reg).get? i = some h →
      (w.heap.get h).id = some i ∧ m.typing reg (w.heap.get h).typeName) ∧
    (∀ reg i reg' i' h, (w.session.register reg).get? i = some h →
      (w.session.register reg').get? i' = some h → reg = reg' ∧ i = i') ∧
    ∀ h heap' t answer, w.session.reset w.heap h = (heap', ⟨t, answer⟩) →
      (∀ k, t.Tracks k → (heap'.get k).id = (w.heap.get k).id) ∧
      (answer = .ok () → ¬ t.Tracks h ∧ (heap'.get h).id = none) ∧
      (∀ e, answer = .error e → (heap'.get h).id = (w.heap.get h).id) := by
  intro w
  have hp : w.session.provider = m.provider := provider_run (start heap m.provider config) ops
  have hsound : m.typing.BorneOut w.session.provider := by
    rw [hp]
    exact m.typing_borneOut
  have hw : m.typing.Holds w := Typing.holds_run m.typing_borneOut hops
  exact ⟨hw, fun _ _ _ _ _ hh hh' => hw.key_unique hsound hh hh',
    fun h _ _ _ hreset => hw.reset hsound h hreset⟩

/-- The first person once more, as another object. -/
def withTwin : List Operation := acquainted ++ [.create { typeName := ⟨"Person"⟩, id := some 1 }]

theorem withTwin_follows :
    (start twoPersons acquaintance.provider .standard).Follows acquaintance.typing.Allows withTwin :=
  follows_append.mpr ⟨acquainted_follows, trivial, trivial⟩

/-- Resetting the other object takes the id from that object alone, although the first person, who is
tracked under the same id, is purged by it. -/
theorem reset_twin :
    let w := (start twoPersons acquaintance.provider .standard).run withTwin
    w.session.nodes.get? 1 = some ⟨0⟩ ∧
      ∃ heap t, w.session.reset w.heap ⟨3⟩ = (heap, ⟨t, .ok ()⟩) ∧
        ¬ t.Tracks ⟨3⟩ ∧ (heap.get ⟨3⟩).id = none ∧
        ∀ k, t.Tracks k → (heap.get k).id = (w.heap.get k).id := by
  intro w
  obtain ⟨-, -, hreset⟩ := run_one_representative acquaintance twoPersons .standard withTwin
    withTwin_follows
  have hok : (w.session.reset w.heap ⟨3⟩).2.answer.isOk = true := by decide +kernel
  cases hr : w.session.reset w.heap ⟨3⟩ with
  | mk heap outcome =>
    obtain ⟨t, answer⟩ := outcome
    rw [hr] at hok
    cases answer with
    | error e => cases hok
    | ok _ =>
      obtain ⟨hkept, hgone, -⟩ := hreset ⟨3⟩ heap t (.ok ()) hr
      exact ⟨rfl, heap, t, rfl, (hgone rfl).1, (hgone rfl).2, hkept⟩

end World

end ObjectGraph
