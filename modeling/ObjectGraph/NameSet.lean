import ObjectGraph.Name

/-!
# Sets of names

A set of names is the strictly ascending list of its members, so two sets with the same members are
the same list and a set is always written in one way. Insertion finds the place; the other
operations keep part of the list and with it the order.
-/

set_option autoImplicit false

namespace ObjectGraph

/-- A finite set of names of one sort, held in ascending order. -/
structure NameSet (sort : NameSort) where
  toList : List (Name sort)
  ascending : toList.Pairwise (· < ·)

namespace NameSet

variable {sort : NameSort}

instance : DecidableEq (NameSet sort) := fun a b =>
  if h : a.toList = b.toList then
    .isTrue (by cases a; cases b; cases h; rfl)
  else
    .isFalse fun e => h (congrArg toList e)

def empty : NameSet sort := ⟨[], .nil⟩

instance : Inhabited (NameSet sort) := ⟨empty⟩

instance : Membership (Name sort) (NameSet sort) := ⟨fun s n => n ∈ s.toList⟩

instance (n : Name sort) (s : NameSet sort) : Decidable (n ∈ s) :=
  inferInstanceAs (Decidable (n ∈ s.toList))

def size (s : NameSet sort) : Nat := s.toList.length

/-- Puts a name at its place in an ascending list; a name that is there already stays once. -/
def place (n : Name sort) : List (Name sort) → List (Name sort)
  | [] => [n]
  | m :: rest =>
    if n < m then n :: m :: rest
    else if n = m then m :: rest
    else m :: place n rest

theorem mem_place {n x : Name sort} {l : List (Name sort)} : x ∈ place n l ↔ x = n ∨ x ∈ l := by
  induction l with
  | nil => simp [place]
  | cons m rest ih =>
    simp only [place]
    split
    · simp
    · split
      · rename_i h; simp [h]
      · simp only [List.mem_cons, ih]
        constructor
        · rintro (h | h | h) <;> simp [h]
        · rintro (h | h | h) <;> simp [h]

theorem ascending_place (n : Name sort) {l : List (Name sort)} (h : l.Pairwise (· < ·)) :
    (place n l).Pairwise (· < ·) := by
  induction l with
  | nil => simp [place]
  | cons m rest ih =>
    obtain ⟨hm, hrest⟩ := List.pairwise_cons.mp h
    simp only [place]
    split
    · rename_i hnm
      exact List.pairwise_cons.mpr ⟨fun x hx => (List.mem_cons.mp hx).elim (· ▸ hnm)
        fun hx => Name.lt_trans hnm (hm x hx), h⟩
    · split
      · exact h
      · rename_i hnm hne
        have hmn : m < n := ((Name.lt_or_eq_or_gt n m).resolve_left hnm).resolve_left hne
        exact List.pairwise_cons.mpr ⟨fun x hx => (mem_place.mp hx).elim (· ▸ hmn) (hm x), ih hrest⟩

def insert (s : NameSet sort) (n : Name sort) : NameSet sort :=
  ⟨place n s.toList, ascending_place n s.ascending⟩

def erase (s : NameSet sort) (n : Name sort) : NameSet sort :=
  ⟨s.toList.filter (· ≠ n), s.ascending.filter _⟩

def difference (s t : NameSet sort) : NameSet sort :=
  ⟨s.toList.filter (· ∉ t), s.ascending.filter _⟩

/-- The set of the names on a list, repetitions counted once. -/
def ofList (l : List (Name sort)) : NameSet sort := l.foldl insert empty

/-! ## Members of each operation's result -/

@[simp] theorem mem_toList {s : NameSet sort} {x : Name sort} : x ∈ s.toList ↔ x ∈ s := Iff.rfl

@[simp] theorem not_mem_empty (x : Name sort) : x ∉ (empty : NameSet sort) :=
  fun h => absurd (h : x ∈ ([] : List (Name sort))) List.not_mem_nil

@[simp] theorem mem_insert {s : NameSet sort} {n x : Name sort} : x ∈ s.insert n ↔ x = n ∨ x ∈ s :=
  mem_place

@[simp] theorem mem_erase {s : NameSet sort} {n x : Name sort} : x ∈ s.erase n ↔ x ∈ s ∧ x ≠ n := by
  rw [← mem_toList]
  simp [erase]

@[simp] theorem mem_difference {s t : NameSet sort} {x : Name sort} :
    x ∈ s.difference t ↔ x ∈ s ∧ x ∉ t := by
  rw [← mem_toList]
  simp [difference]

@[simp] theorem mem_ofList {l : List (Name sort)} {x : Name sort} : x ∈ ofList l ↔ x ∈ l := by
  suffices h : ∀ (l : List (Name sort)) (s : NameSet sort), x ∈ l.foldl insert s ↔ x ∈ s ∨ x ∈ l by
    simp [ofList, h]
  intro l
  induction l with
  | nil => simp
  | cons n rest ih =>
    intro s
    simp only [List.foldl_cons, ih, mem_insert, List.mem_cons]
    constructor
    · rintro ((h | h) | h) <;> simp [h]
    · rintro (h | h | h) <;> simp [h]

end NameSet

end ObjectGraph
