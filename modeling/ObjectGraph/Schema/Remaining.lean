import ObjectGraph.NameSet
import ObjectGraph.Schema.Declaration

/-!
# What is left of the declarations

Walks through the declared parents remember which names they have come upon, so that they look at each
once. A name that is new to a walk takes its declaration out of what is left, and that is why a walk
ends, also where types extend each other in a circle.
-/

set_option autoImplicit false

namespace ObjectGraph.Schema

/-- The sum of the weights of the declarations whose names have not been met. -/
def remaining (weight : Declaration → Nat) (met : NameSet .entity) : List Declaration → Nat
  | [] => 0
  | d :: rest => (if d.name ∈ met then 0 else weight d) + remaining weight met rest

variable (weight : Declaration → Nat) {met : NameSet .entity} {name : TypeName}

theorem remaining_cons (d : Declaration) (rest : List Declaration) :
    remaining weight met (d :: rest) =
      (if d.name ∈ met then 0 else weight d) + remaining weight met rest := rfl

theorem remaining_insert_le (declared : List Declaration) :
    remaining weight (met.insert name) declared ≤ remaining weight met declared := by
  induction declared with
  | nil => exact Nat.le_refl 0
  | cons d rest ih =>
    rw [remaining_cons, remaining_cons]
    by_cases h : d.name ∈ met
    · simpa [h] using ih
    · rw [if_neg h]
      split <;> omega

/-- A name that is met for the first time takes the weight of its declaration out of what is left. -/
theorem remaining_insert_add (declared : List Declaration) (hn : name ∉ met) :
    remaining weight (met.insert name) declared + (find? declared name).elim 0 weight
      ≤ remaining weight met declared := by
  induction declared with
  | nil => exact Nat.le_refl 0
  | cons d rest ih =>
    rw [remaining_cons, remaining_cons]
    by_cases hd : d.name = name
    · have hfound : find? (d :: rest) name = some d := by simp [find?, hd]
      have hless : remaining weight (met.insert name) rest ≤ remaining weight met rest :=
        remaining_insert_le weight rest
      simp only [hfound, Option.elim_some, hd, NameSet.mem_insert, true_or, if_true, hn, if_false]
      omega
    · have hfound : find? (d :: rest) name = find? rest name := by simp [find?, hd]
      simp only [hfound, NameSet.mem_insert, hd, false_or]
      omega

end ObjectGraph.Schema
