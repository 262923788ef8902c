/-!
# Bindings in the order of their keys

A list of bindings stands for a map whose own order means nothing: of several bindings for one key
the first counts, the others are hidden by it. `sorted` writes the map down in one way only, by
ascending keys and each key once, so that whatever is computed from the sorted bindings depends on
the map alone.
-/

set_option autoImplicit false

namespace ObjectGraph

namespace KeyOrder

variable {β : Type}

/-- Puts a binding at its place among ascending ones, over the one that its key may have there. -/
def place (k : String) (b : β) : List (String × β) → List (String × β)
  | [] => [(k, b)]
  | (j, c) :: rest =>
    if k < j then (k, b) :: (j, c) :: rest
    else if k = j then (k, b) :: rest
    else (j, c) :: place k b rest

/-- The bindings that count, by ascending keys. -/
def sorted : List (String × β) → List (String × β)
  | [] => []
  | (k, b) :: rest => place k b (sorted rest)

def Ascending (l : List (String × β)) : Prop := l.Pairwise fun a b => a.1 < b.1

theorem mem_place_key {k : String} {b : β} {l : List (String × β)} {e : String × β}
    (h : e ∈ place k b l) : e = (k, b) ∨ e ∈ l := by
  induction l with
  | nil => exact .inl (List.mem_singleton.mp h)
  | cons d rest ih =>
    obtain ⟨j, c⟩ := d
    simp only [place] at h
    split at h
    · simpa using h
    · split at h
      · rcases List.mem_cons.mp h with h | h
        · exact .inl h
        · exact .inr (List.mem_cons_of_mem _ h)
      · rcases List.mem_cons.mp h with h | h
        · exact .inr (h ▸ List.mem_cons_self)
        · exact (ih h).imp_right (List.mem_cons_of_mem _)

theorem ascending_place (k : String) (b : β) {l : List (String × β)} (h : Ascending l) :
    Ascending (place k b l) := by
  induction l with
  | nil => exact List.pairwise_singleton _ _
  | cons d rest ih =>
    obtain ⟨j, c⟩ := d
    obtain ⟨hj, hrest⟩ := List.pairwise_cons.mp h
    simp only [place]
    split
    · rename_i hkj
      exact List.pairwise_cons.mpr ⟨fun e he => (List.mem_cons.mp he).elim (· ▸ hkj)
        fun he => String.lt_trans hkj (hj e he), h⟩
    · split
      · rename_i hkj
        exact List.pairwise_cons.mpr ⟨fun e he => hkj ▸ hj e he, hrest⟩
      · rename_i hkj hne
        have hjk : j < k := Decidable.byContradiction fun hjk =>
          hne (String.le_antisymm (String.not_lt.mp hjk) (String.not_lt.mp hkj))
        exact List.pairwise_cons.mpr
          ⟨fun e he => (mem_place_key he).elim (· ▸ hjk) (hj e), ih hrest⟩

theorem ascending_sorted (l : List (String × β)) : Ascending (sorted l) := by
  induction l with
  | nil => exact .nil
  | cons e rest ih => exact ascending_place e.1 e.2 ih

/-! ## What is bound -/

theorem lookup_cons (k j : String) (b : β) (l : List (String × β)) :
    ((k, b) :: l).lookup j = if j = k then some b else l.lookup j := by
  by_cases hj : j = k
  · rw [List.lookup_cons, beq_iff_eq.mpr hj, if_pos hj]
  · rw [List.lookup_cons, beq_false_of_ne hj, if_neg hj]

@[simp] theorem lookup_place (k j : String) (b : β) (l : List (String × β)) :
    (place k b l).lookup j = if j = k then some b else l.lookup j := by
  induction l with
  | nil => exact lookup_cons k j b []
  | cons d rest ih =>
    obtain ⟨i, c⟩ := d
    simp only [place]
    split
    · exact lookup_cons k j b _
    · split
      next hki =>
        subst hki
        rw [lookup_cons, lookup_cons]
        split <;> rfl
      next hki =>
        rw [lookup_cons, ih, lookup_cons]
        by_cases hji : j = i
        · rw [if_pos hji, if_pos hji, if_neg fun hjk => hki (hjk.symm.trans hji)]
        · rw [if_neg hji, if_neg hji]

/-- Sorting hides what was hidden already. -/
@[simp] theorem lookup_sorted (l : List (String × β)) (j : String) :
    (sorted l).lookup j = l.lookup j := by
  induction l with
  | nil => rfl
  | cons e rest ih => rw [sorted, lookup_place, ih, ← lookup_cons]

theorem length_place_le (k : String) (b : β) (l : List (String × β)) :
    (place k b l).length ≤ l.length + 1 := by
  induction l with
  | nil => exact Nat.le_refl 1
  | cons d rest ih =>
    simp only [place]
    split
    · exact Nat.le_refl _
    · split
      · exact Nat.le_succ _
      · simp only [List.length_cons]
        omega

theorem length_sorted_le (l : List (String × β)) : (sorted l).length ≤ l.length := by
  induction l with
  | nil => exact Nat.le_refl 0
  | cons e rest ih =>
    have := length_place_le e.1 e.2 (sorted rest)
    simp only [sorted, List.length_cons]
    omega

theorem mem_of_mem_sorted {l : List (String × β)} {e : String × β} (h : e ∈ sorted l) : e ∈ l := by
  induction l with
  | nil => exact h
  | cons d rest ih =>
    rcases mem_place_key h with rfl | h
    · exact List.mem_cons_self
    · exact List.mem_cons_of_mem _ (ih h)

/-- A key below all others is not bound. -/
theorem lookup_eq_none_of_lt {k : String} {l : List (String × β)} (h : ∀ e ∈ l, k < e.1) :
    l.lookup k = none := by
  induction l with
  | nil => rfl
  | cons e rest ih =>
    have hne : k ≠ e.1 := fun hk => String.lt_irrefl k (by simpa [← hk] using h e List.mem_cons_self)
    rw [lookup_cons, if_neg hne]
    exact ih fun d hd => h d (List.mem_cons_of_mem _ hd)

/-- The first key of ascending bindings is not above one that others bind first, if both bind the
same. -/
theorem first_le {k j : String} {a b : β} {l m : List (String × β)} (hm : Ascending ((j, b) :: m))
    (h : ((k, a) :: l).lookup k = ((j, b) :: m).lookup k) : j ≤ k := by
  refine String.not_lt.mp fun hkj => ?_
  have hall : ∀ e ∈ (j, b) :: m, k < e.1 := by
    intro e he
    rcases List.mem_cons.mp he with rfl | he
    · exact hkj
    · exact String.lt_trans hkj ((List.pairwise_cons.mp hm).1 e he)
  rw [lookup_eq_none_of_lt hall, lookup_cons, if_pos rfl] at h
  cases h

/-- Ascending bindings are the same as soon as they bind the same. -/
theorem Ascending.ext {l m : List (String × β)} (hl : Ascending l) (hm : Ascending m)
    (h : ∀ k, l.lookup k = m.lookup k) : l = m := by
  induction l generalizing m with
  | nil =>
    cases m with
    | nil => rfl
    | cons e rest =>
      have he := h e.1
      rw [lookup_cons, if_pos rfl] at he
      cases he
  | cons d l ih =>
    cases m with
    | nil =>
      have hd := h d.1
      rw [lookup_cons, if_pos rfl] at hd
      cases hd
    | cons e m =>
      obtain ⟨k, a⟩ := d
      obtain ⟨j, b⟩ := e
      obtain rfl : k = j := String.le_antisymm (first_le hl (h j).symm) (first_le hm (h k))
      have hfirst := h k
      rw [lookup_cons, lookup_cons, if_pos rfl, if_pos rfl, Option.some.injEq] at hfirst
      subst hfirst
      obtain ⟨hd, hrest⟩ := List.pairwise_cons.mp hl
      obtain ⟨he, hrest'⟩ := List.pairwise_cons.mp hm
      refine congrArg _ (ih hrest hrest' fun i => ?_)
      by_cases hik : i = k
      · subst hik
        rw [lookup_eq_none_of_lt hd, lookup_eq_none_of_lt he]
      · have hi := h i
        rwa [lookup_cons, lookup_cons, if_neg hik, if_neg hik] at hi

end KeyOrder

end ObjectGraph
