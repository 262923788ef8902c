/-!
# Names

Three sorts of names run through an object graph: the labels that nodes wear, the types of the edges
between them, and the names of the mapped entity types. A name is a text tagged by its sort, so a
label cannot be handed over where an entity type is asked for.

Names are compared as their texts are: by Unicode scalar value from the left, a proper beginning
before the longer text. That is also the order of their UTF-8 bytes.
-/

set_option autoImplicit false

namespace ObjectGraph

/-- What a name is a name of. -/
inductive NameSort where
  | label
  | edge
  | entity
deriving DecidableEq, Repr

/-- A name of one sort. -/
structure Name (sort : NameSort) where
  text : String
deriving DecidableEq, Repr, Inhabited

/-- A label that a node wears, such as `Admin`. -/
abbrev Label := Name .label

/-- The type of an edge, such as `WORKS_AT`. -/
abbrev EdgeType := Name .edge

/-- The name of a mapped entity type, such as `Person`: the key under which a domain describes it. -/
abbrev TypeName := Name .entity

namespace Name

variable {sort : NameSort}

instance : ToString (Name sort) := ⟨Name.text⟩

instance : LT (Name sort) := ⟨fun a b => a.text < b.text⟩

instance : Ord (Name sort) := ⟨fun a b => compare a.text b.text⟩

instance (a b : Name sort) : Decidable (a < b) := inferInstanceAs (Decidable (a.text < b.text))

theorem ext_text {a b : Name sort} (h : a.text = b.text) : a = b := by
  cases a; cases b; cases h; rfl

theorem lt_irrefl (a : Name sort) : ¬ a < a := String.lt_irrefl a.text

theorem lt_trans {a b c : Name sort} (hab : a < b) (hbc : b < c) : a < c :=
  String.lt_trans (a := a.text) (b := b.text) (c := c.text) hab hbc

/-- Of two names, one comes first unless they are the same. -/
theorem lt_or_eq_or_gt (a b : Name sort) : a < b ∨ a = b ∨ b < a := by
  by_cases hab : a.text < b.text
  · exact .inl hab
  · by_cases hba : b.text < a.text
    · exact .inr (.inr hba)
    · exact .inr (.inl (ext_text (String.le_antisymm (String.not_lt.mp hba) (String.not_lt.mp hab))))

end Name

end ObjectGraph
