import ObjectGraph.Proofs.PurgeStep
import ObjectGraph.Proofs.World

/-!
# How many steps a purge may take

`Session.purgeWithin` is the loop of a purge with a limit on its steps, one step for each entity that
is taken from the queue. It breaks off when the limit is reached, and has no answer then.

What is in the queue and what the registers may still put there (`Session.budget`) are less after each
step that leaves something to do (`Session.purgeOne_budget`). So the loop has its answer within as many
steps as the two come to at first, and with a higher limit it has the same answer. Nothing is asked of
the session for that: what the registers hold, under which ids, and how the entities refer to each
other makes no difference.
-/

set_option autoImplicit false

namespace ObjectGraph.Session

/-- What the purge of a queue comes to, if that takes no more steps than the limit. -/
def purgeWithin (heap : Heap) : Nat → Session → Visited → List Handle → Option (Outcome Unit)
  | _, s, _, [] => some ⟨s, .ok ()⟩
  | 0, _, _, _ :: _ => none
  | limit + 1, s, visited, h :: rest =>
    match s.purgeOne heap visited h with
    | ⟨s', .error e⟩ => some ⟨s', .error e⟩
    | ⟨s', .ok (found, seen)⟩ => purgeWithin heap limit s' seen (rest ++ found)

variable {s : Session} {heap : Heap} {visited : Visited} {pending : List Handle} {limit : Nat}

/-- A loop that is not broken off does what the purge of the queue does. -/
theorem purgeWithin_eq_none_or (s : Session) (heap : Heap) (visited : Visited) (pending : List Handle)
    (limit : Nat) :
    purgeWithin heap limit s visited pending = none ∨
      purgeWithin heap limit s visited pending = some (s.purgeAll heap visited pending) := by
  induction limit generalizing s visited pending with
  | zero =>
    cases pending with
    | nil => exact .inr (by rw [purgeWithin, purgeAll])
    | cons h rest => exact .inl rfl
  | succ limit ih =>
    cases pending with
    | nil => exact .inr (by rw [purgeWithin, purgeAll])
    | cons h rest =>
      rw [purgeWithin, purgeAll_cons]
      split
      next s' e ho => exact .inr (by rw [ho, Outcome.andThen])
      next s' found seen ho =>
        rw [ho, Outcome.andThen]
        exact ih s' seen (rest ++ found)

/-- The loop is not broken off if the limit is what the queue and the budget come to. -/
theorem purgeWithin_ne_none (hlimit : pending.length + s.budget ≤ limit) :
    purgeWithin heap limit s visited pending ≠ none := by
  induction limit generalizing s visited pending with
  | zero =>
    -- nothing is pending
    have hnil : pending = [] := List.length_eq_zero_iff.mp (by omega)
    rw [hnil, purgeWithin]
    exact Option.some_ne_none _
  | succ limit ih =>
    cases pending with
    | nil =>
      rw [purgeWithin]
      exact Option.some_ne_none _
    | cons h rest =>
      rw [purgeWithin]
      split
      next => exact Option.some_ne_none _
      next s' found seen ho =>
        have hpaid := purgeOne_budget ho
        refine ih ?_
        simp only [List.length_cons, List.length_append] at hlimit ⊢
        omega

theorem purgeWithin_of_le (hlimit : pending.length + s.budget ≤ limit) :
    purgeWithin heap limit s visited pending = some (s.purgeAll heap visited pending) :=
  (purgeWithin_eq_none_or s heap visited pending limit).resolve_left (purgeWithin_ne_none hlimit)

/-- **A purge always ends, and soon.** Of every session over every heap, and whatever entity is purged:
as many steps as there are records and twice as many as there are relationship entities, and one for
the entity itself, are enough for the queue to run empty or a step to fail. A loop with fewer steps
gives the same answer or breaks off. -/
theorem purge_within_budget (s : Session) (heap : Heap) (h : Handle) :
    (∀ spare, purgeWithin heap (1 + s.records.size + 2 * s.relationships.size + spare) s [] [h] =
      some (s.purge heap h)) ∧
    ∀ limit, purgeWithin heap limit s [] [h] = none ∨
      purgeWithin heap limit s [] [h] = some (s.purge heap h) := by
  constructor
  · intro spare
    refine purgeWithin_of_le ?_
    simp only [List.length_singleton, budget]
    omega
  · exact purgeWithin_eq_none_or s heap [] [h]

/-- Two acquaintances that begin and end with each other. -/
def eachOther : Heap :=
  ⟨#[{ typeName := ⟨"Knows"⟩, id := some 1, references := .ofList [("from", ⟨1⟩), ("to", ⟨1⟩)] },
    { typeName := ⟨"Knows"⟩, id := some 2, references := .ofList [("from", ⟨0⟩), ("to", ⟨0⟩)] }]⟩

-- each of the two puts the other into the queue twice, so none of the five steps can be spared
example :
    let s := ((World.start eachOther World.acquaintance.provider .standard).run
      [.registerRelationship ⟨0⟩ 1, .registerRelationship ⟨1⟩ 2]).session
    (purgeWithin eachOther 5 s [] [⟨0⟩]).isSome ∧ (purgeWithin eachOther 4 s [] [⟨0⟩]).isNone := by
  decide +kernel

end ObjectGraph.Session
