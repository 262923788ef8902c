import ObjectGraph.Schema.Remaining

/-!
# Inherited primary indexes

A node type that declares no primary index of its own takes it from the nearest ancestor that does.
The search keeps a queue of declarations and the names that it has seen on lists of parents. It takes
the declaration at the front: if that one declares an index, the search is over, and otherwise those of
its parents that have not been seen join the queue at its end. So it goes through the ancestors nearest
first.

It is also run on declarations with cycles, and ends there as well, since no name joins the queue twice.
-/

set_option autoImplicit false

namespace ObjectGraph.Schema

/-- The declarations of those parents that have not been seen, in order, and what has been seen when
all parents have been looked at. -/
def unseenParents (declared : List Declaration) :
    List TypeName → NameSet .entity → List Declaration × NameSet .entity
  | [], seen => ([], seen)
  | name :: rest, seen =>
    if name ∈ seen then unseenParents declared rest seen
    else
      let later := unseenParents declared rest (seen.insert name)
      ((find? declared name).toList ++ later.1, later.2)

/-- A declaration that joins the queue is one less to come. -/
theorem remaining_unseenParents_add (declared : List Declaration) (parents : List TypeName)
    (seen : NameSet .entity) :
    remaining (fun _ => 1) (unseenParents declared parents seen).2 declared +
      (unseenParents declared parents seen).1.length ≤ remaining (fun _ => 1) seen declared := by
  induction parents generalizing seen with
  | nil => exact Nat.le_refl _
  | cons name rest ih =>
    rw [unseenParents]
    split
    next => exact ih seen
    next hn =>
      have hlater := ih (seen.insert name)
      have hless := remaining_insert_add (fun _ => 1) declared hn
      have hjoins : (find? declared name).toList.length = (find? declared name).elim 0 fun _ => 1 := by
        cases find? declared name <;> rfl
      simp only [List.length_append, hjoins]
      omega

/-- The first primary index that is declared as the queue goes on. -/
def nearestIndex (declared queue : List Declaration) (seen : NameSet .entity) : Option String :=
  match queue with
  | [] => none
  | d :: rest =>
    match d.index with
    | some key => some key
    | none =>
      nearestIndex declared (rest ++ (unseenParents declared d.parents seen).1)
        (unseenParents declared d.parents seen).2
termination_by queue.length + remaining (fun _ => 1) seen declared
decreasing_by
  have := remaining_unseenParents_add declared d.parents seen
  simp only [List.length_cons, List.length_append]
  omega

/-- The property that holds the primary key of a type. Only node types have one. -/
def primaryIndex (declared : List Declaration) (d : Declaration) : Option String :=
  if d.kind = .node then nearestIndex declared [d] .empty else none

end ObjectGraph.Schema
