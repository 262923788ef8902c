import ObjectGraph.Proofs.Backing
import ObjectGraph.Proofs.Discipline
import Mathlib.Control.Monad.Basic

/-!
# Finding an entity and purging it

To detach an entity is to find it by a key or by an id and to purge what was found. The entity is found
where it is tracked, but it is purged by the key that it stands for, its own id in the register of its
own type. Nothing sees to it that these are the same: a relationship entity may be registered under
any id, and an entity of any type as a node.

Where they are the same, what was found is gone. Where the entity stands for nothing that is tracked, the
answer is still that an entity was found, and everything stays (`World.run_detach`). Callers that keep to
the types and to the ids never come to such a place.
-/

set_option autoImplicit false

namespace ObjectGraph

namespace Session

/-- The answer is that an entity was found if there is one and it could be purged. -/
theorem purgeFound_eq_true {s : Session} {heap : Heap} {found : Option Handle}
    (hok : (s.purgeFound heap found).answer = .ok true) :
    ∃ h, found = some h ∧
      s.purge heap h = ⟨(s.purgeFound heap found).session, .ok ()⟩ := by
  cases found with
  | none => cases hok
  | some h =>
    refine ⟨h, rfl, ?_⟩
    simp only [purgeFound, Outcome.andThen] at hok ⊢
    split at hok
    next hanswer => rw [← hanswer]
    next => cases hok

theorem eq_of_purge_of_standsForNothing {s t : Session} {heap : Heap} {h : Handle}
    {answer : Except Error Unit} (hp : s.purge heap h = ⟨t, answer⟩)
    (hnothing : s.StandsForNothing heap h) : t = s := by
  have hsame := purge_of_standsForNothing hnothing
  rwa [hp] at hsame

end Session

namespace World

open Session

/-- **What was found is gone if it stands for the place where it was found.** In every world that a run
comes to, let detaching answer that there is an entity. A relationship entity that stands for the id is
then not tracked there any more, and no record names the id. If it does not stand for the id it may
stay, but no other takes its place, and where the place is empty no record names the id. A node that
stands for each id that it was tracked under as a node is tracked as a node no more. But an entity that
stands for nothing that is tracked has been left where it is, and the world with it. Where callers have
kept to the types and to the ids, every entity that is found goes. -/
theorem run_detach (heap : Heap) (provider : Schema.Provider) (config : Config)
    (ops : List Operation) :
    let w := (start heap provider config).run ops
    (∀ id, (w.session.detachRelationship w.heap id).answer = .ok true →
      ∃ h, w.session.lookupRelationship id = some h ∧
        let v := w.after (.detachRelationship id)
        (w.session.StandsFor w.heap h .relationship id →
          v.session.lookupRelationship id = none ∧ v.session.Unnamed id) ∧
        (v.session.lookupRelationship id = some h ∨
          v.session.lookupRelationship id = none ∧ v.session.Unnamed id) ∧
        (w.session.StandsForNothing w.heap h → v = w)) ∧
    (∀ key, (w.session.detachNode w.heap key).answer = .ok true →
      ∃ h, w.session.lookupNode key = some h ∧
        let v := w.after (.detachNode key)
        ((∀ i, w.session.nodes.get? i = some h → w.session.StandsFor w.heap h .node i) →
          ∀ i, v.session.nodes.get? i ≠ some h) ∧
        (w.session.StandsForNothing w.heap h → v = w)) ∧
    ∀ τ : Typing, τ.BorneOut provider → (start heap provider config).Follows τ.Allows ops →
      (∀ id, (w.session.detachRelationship w.heap id).answer = .ok true →
        let v := w.after (.detachRelationship id)
        v.session.lookupRelationship id = none ∧ v.session.Unnamed id) ∧
      ∀ key h, (w.session.detachNode w.heap key).answer = .ok true →
        w.session.lookupNode key = some h →
        ∀ i, (w.after (.detachNode key)).session.nodes.get? i ≠ some h := by
  intro w
  have hgone : ∀ op id, (w.after op).session.lookupRelationship id = none →
      (w.after op).session.lookupRelationship id = none ∧ (w.after op).session.Unnamed id := by
    intro op id hnone
    have hbacked : (w.after op).session.Backed :=
      (w.effect op).keeps_backed (run_backed heap provider config ops)
    exact ⟨hnone, hbacked.unnamed (Table.contains_eq_false_iff.mpr hnone)⟩
  refine ⟨fun id hok => ?_, fun key hok => ?_, fun τ hsound hops => ?_⟩
  · obtain ⟨h, hfound, hpurge⟩ := purgeFound_eq_true hok
    refine ⟨h, hfound, fun hkey => hgone _ id (untracked_of_purge hpurge hkey), ?_, fun hnothing => ?_⟩
    · cases hleft : (w.after (.detachRelationship id)).session.lookupRelationship id with
      | none => exact .inr ⟨rfl, (hgone _ id hleft).2⟩
      | some k =>
        have hold : w.session.lookupRelationship id = some k :=
          (shrinks_of_purge hpurge).get?_relationships hleft
        exact .inl (hold.symm.trans hfound)
    · exact congrArg (World.mk w.heap) (eq_of_purge_of_standsForNothing hpurge hnothing)
  · obtain ⟨h, hfound, hpurge⟩ := purgeFound_eq_true hok
    refine ⟨h, hfound, fun hplace i hi => ?_, fun hnothing => ?_⟩
    · have hkey := hplace i ((shrinks_of_purge hpurge).get?_nodes hi)
      exact nomatch (untracked_of_purge hpurge hkey).symm.trans hi
    · exact congrArg (World.mk w.heap) (eq_of_purge_of_standsForNothing hpurge hnothing)
  · have hholds : τ.Holds w := Typing.holds_run hsound hops
    have hsound : τ.BorneOut w.session.provider :=
      (provider_run (start heap provider config) ops).symm ▸ hsound
    refine ⟨fun id hok => ?_, fun key h hok hfound i hi => ?_⟩
    · obtain ⟨h, hfound, hpurge⟩ := purgeFound_eq_true hok
      have hkey : w.session.StandsFor w.heap h .relationship id := hholds.standsFor hsound hfound
      exact hgone _ id (untracked_of_purge hpurge hkey)
    · obtain ⟨h', hfound', hpurge⟩ := purgeFound_eq_true hok
      obtain rfl := Option.some.inj (hfound.symm.trans hfound')
      exact hholds.not_tracks_of_purge hsound hpurge ⟨.node, i, hi⟩

/-- An acquaintance is registered under an id before it has one of its own, and its edge is recorded.
Another is registered as a node. -/
def misplaced : List Operation :=
  [.create { typeName := ⟨"Knows"⟩, references := .ofList [("from", ⟨0⟩), ("to", ⟨1⟩)] },
    .registerRelationship ⟨3⟩ 11, .addRecord ⟨1, 2, ⟨"KNOWS"⟩, some 11⟩, .registerNode ⟨2⟩]

/-- Detaching finds both of them and takes neither away. -/
theorem detach_misplaced :
    let w := (start twoPersons acquaintance.provider .standard).run misplaced
    ((w.session.detachRelationship w.heap 11).answer = .ok true ∧
      let v := w.after (.detachRelationship 11)
      v.session.lookupRelationship 11 = some ⟨3⟩ ∧ ¬ v.session.Unnamed 11) ∧
    (w.session.detachNode w.heap (.integer 5)).answer = .ok true ∧
      w.session.lookupNode (.integer 5) = some ⟨2⟩ ∧
      (w.after (.detachNode (.integer 5))).session.nodes.get? 5 = some ⟨2⟩ := by
  refine ⟨⟨?_, ?_, fun hunnamed => ?_⟩, ?_, rfl, ?_⟩
  · decide +kernel
  · decide +kernel
  · exact hunnamed ⟨1, 2, ⟨"KNOWS"⟩, some 11⟩ (by decide +kernel) rfl
  · decide +kernel
  · decide +kernel

/-- Neither of them stands for anything that is tracked, so nothing happens to them. The acquaintance that
is registered under its own id goes, and no record names it. -/
theorem detach_placed_and_misplaced :
    let w := (start twoPersons acquaintance.provider .standard).run misplaced
    let u := (start twoPersons acquaintance.provider .standard).run acquainted
    w.after (.detachRelationship 11) = w ∧ w.after (.detachNode (.integer 5)) = w ∧
      (u.after (.detachRelationship 5)).session.lookupRelationship 5 = none ∧
      (u.after (.detachRelationship 5)).session.Unnamed 5 ∧
      ∀ i, (u.after (.detachNode (.integer 2))).session.nodes.get? i ≠ some ⟨1⟩ := by
  intro w u
  obtain ⟨hfound, hfoundNode, -⟩ := run_detach twoPersons acquaintance.provider .standard misplaced
  obtain ⟨-, -, htyped⟩ := run_detach twoPersons acquaintance.provider .standard acquainted
  obtain ⟨hgone, hgoneNode⟩ :=
    htyped acquaintance.typing acquaintance.typing_borneOut acquainted_follows
  have hunsaved : w.session.StandsForNothing w.heap ⟨3⟩ := by
    rintro reg id ⟨hid, -⟩
    have hnone : (w.heap.get ⟨3⟩).id = none := rfl
    exact nomatch hnone.symm.trans hid
  have hmisplaced : w.session.StandsForNothing w.heap ⟨2⟩ := by
    intro reg id hkey
    have hown : w.session.StandsFor w.heap ⟨2⟩ .relationship 5 := ⟨rfl, rfl⟩
    obtain ⟨rfl, rfl⟩ := hown.unique hkey
    rfl
  obtain ⟨h, hh, -, -, hsame⟩ := hfound 11 (by decide +kernel)
  obtain ⟨k, hk, -, hsameNode⟩ := hfoundNode (.integer 5) (by decide +kernel)
  obtain rfl : ⟨3⟩ = h := Option.some.inj hh
  obtain rfl : ⟨2⟩ = k := Option.some.inj hk
  obtain ⟨hnone, hunnamed⟩ := hgone 5 (by decide +kernel)
  exact ⟨hsame hunsaved, hsameNode hmisplaced, hnone, hunnamed,
    hgoneNode (.integer 2) ⟨1⟩ (by decide +kernel) rfl⟩

end World

end ObjectGraph
