/-!
# Tables

A table is a finite map that remembers the order in which its keys came in. Writing to a key that is
there keeps its place; a new key goes to the end; dropping a key leaves the order of the others. The
view of a table is `get?`, and each operation says what it does to that view; `keys` is the order.

Where a register is held only to be looked up, its order carries no meaning, and nothing that the
register answers may depend on it.
-/

set_option autoImplicit false

namespace ObjectGraph

/-- A finite map from `κ` to `α`, its entries in the order in which their keys were first written. -/
structure Table (κ α : Type) where
  entries : List (κ × α)
  distinct : entries.Pairwise fun a b => a.1 ≠ b.1

namespace Table

variable {κ α : Type}

def empty : Table κ α := ⟨[], .nil⟩

instance : Inhabited (Table κ α) := ⟨empty⟩

/-- The keys, in the order of the table. -/
def keys (t : Table κ α) : List κ := t.entries.map Prod.fst

def values (t : Table κ α) : List α := t.entries.map Prod.snd

def size (t : Table κ α) : Nat := t.entries.length

def isEmpty (t : Table κ α) : Bool := t.entries.isEmpty

/-- A table is its entries. -/
theorem ext {t u : Table κ α} (h : t.entries = u.entries) : t = u := by
  cases t
  cases u
  cases h
  rfl

theorem keys_nodup (t : Table κ α) : t.keys.Nodup := List.pairwise_map.mpr t.distinct

def filter (keep : κ → α → Bool) (t : Table κ α) : Table κ α :=
  ⟨t.entries.filter fun e => keep e.1 e.2, t.distinct.filter _⟩

variable [DecidableEq κ]

def get? (t : Table κ α) (k : κ) : Option α := t.entries.lookup k

def contains (t : Table κ α) (k : κ) : Bool := (t.get? k).isSome

theorem lookup_eq_none_iff {l : List (κ × α)} {k : κ} : l.lookup k = none ↔ ∀ e ∈ l, e.1 ≠ k := by
  induction l with
  | nil => simp
  | cons e rest ih =>
    obtain ⟨j, a⟩ := e
    by_cases h : k = j
    · subst h; simp
    · have : (k == j) = false := by simpa using h
      simp [List.lookup_cons, this, ih, Ne.symm h]

theorem get?_eq_none_iff {t : Table κ α} {k : κ} : t.get? k = none ↔ k ∉ t.keys := by
  rw [get?, lookup_eq_none_iff, keys]
  simp only [List.mem_map, not_exists, not_and]

theorem lookup_eq_some_iff {l : List (κ × α)} (hl : l.Pairwise fun a b => a.1 ≠ b.1) {k : κ} {a : α} :
    l.lookup k = some a ↔ (k, a) ∈ l := by
  induction l with
  | nil => simp
  | cons e rest ih =>
    obtain ⟨j, b⟩ := e
    obtain ⟨hj, hrest⟩ := List.pairwise_cons.mp hl
    by_cases h : k = j
    · subst h
      have hno : ∀ c, (k, c) ∉ rest := fun c hc => hj (k, c) hc rfl
      simp [hno, eq_comm]
    · have : (k == j) = false := by simpa using h
      simp [List.lookup_cons, this, ih hrest, h]

/-- Looking up finds exactly the entries. -/
theorem get?_eq_some_iff {t : Table κ α} {k : κ} {a : α} : t.get? k = some a ↔ (k, a) ∈ t.entries :=
  lookup_eq_some_iff t.distinct

theorem contains_iff {t : Table κ α} {k : κ} : t.contains k = true ↔ k ∈ t.keys := by
  rw [contains, Option.isSome_iff_ne_none, ne_eq, get?_eq_none_iff, Decidable.not_not]

/-- Overwrites the value of one key, wherever it stands. -/
def overwrite (k : κ) (a : α) (l : List (κ × α)) : List (κ × α) :=
  l.map fun e => if e.1 = k then (k, a) else e

theorem overwrite_keys (k : κ) (a : α) (l : List (κ × α)) :
    (overwrite k a l).map Prod.fst = l.map Prod.fst := by
  rw [overwrite, List.map_map]
  refine List.map_congr_left fun e _ => ?_
  simp only [Function.comp_apply]
  split
  · rename_i h; exact h.symm
  · rfl

theorem distinct_overwrite (k : κ) (a : α) {l : List (κ × α)} (h : l.Pairwise fun a b => a.1 ≠ b.1) :
    (overwrite k a l).Pairwise fun a b => a.1 ≠ b.1 := by
  have h' := List.pairwise_map.mpr h
  rw [← overwrite_keys k a] at h'
  exact List.pairwise_map.mp h'

theorem distinct_append (k : κ) (a : α) {t : Table κ α} (h : t.contains k = false) :
    (t.entries ++ [(k, a)]).Pairwise fun a b => a.1 ≠ b.1 := by
  have hk : k ∉ t.keys := fun hk => by simp [contains_iff.mpr hk] at h
  refine List.pairwise_append.mpr ⟨t.distinct, List.pairwise_singleton _ _, fun e he f hf => ?_⟩
  obtain rfl := List.mem_singleton.mp hf
  exact fun hek => hk (List.mem_map.mpr ⟨e, he, hek⟩)

/-- Writes a value: over the old one if the key is there, else at the end. -/
def insert (t : Table κ α) (k : κ) (a : α) : Table κ α :=
  if h : t.contains k then
    ⟨overwrite k a t.entries, distinct_overwrite k a t.distinct⟩
  else
    ⟨t.entries ++ [(k, a)], distinct_append k a (Bool.not_eq_true _ ▸ h)⟩

/-- Drops a key; the order of the others stays. -/
def erase (t : Table κ α) (k : κ) : Table κ α := t.filter fun j _ => j ≠ k

/-- The table of a list of entries; of several for one key the last counts, at the first one's place. -/
def ofList (l : List (κ × α)) : Table κ α := l.foldl (fun t e => t.insert e.1 e.2) empty

/-! ## What each operation does to the view -/

@[simp] theorem get?_empty (k : κ) : (empty : Table κ α).get? k = none := rfl

theorem lookup_overwrite (k j : κ) (a : α) (l : List (κ × α)) :
    (overwrite k a l).lookup j = if j = k then (l.lookup j).map fun _ => a else l.lookup j := by
  induction l with
  | nil => simp [overwrite]
  | cons e rest ih =>
    obtain ⟨i, b⟩ := e
    rw [overwrite] at ih
    rw [overwrite, List.map_cons]
    by_cases hi : i = k
    · subst hi
      rw [if_pos rfl, List.lookup_cons, List.lookup_cons, ih]
      by_cases hj : j = i
      · subst hj; simp
      · have : (j == i) = false := by simpa using hj
        simp [this, hj]
    · rw [if_neg hi, List.lookup_cons, List.lookup_cons, ih]
      by_cases hj : j = i
      · subst hj; simp [hi]
      · have : (j == i) = false := by simpa using hj
        simp [this]

theorem lookup_append_singleton (k j : κ) (a : α) (l : List (κ × α)) :
    (l ++ [(k, a)]).lookup j = (l.lookup j).or (if j = k then some a else none) := by
  rw [List.lookup_append]
  by_cases h : j = k
  · subst h; simp
  · have : (j == k) = false := by simpa using h
    simp [List.lookup_cons, this, h]

@[simp] theorem get?_insert (t : Table κ α) (k j : κ) (a : α) :
    (t.insert k a).get? j = if j = k then some a else t.get? j := by
  unfold insert
  split
  · rename_i h
    rw [get?, lookup_overwrite]
    by_cases hj : j = k
    · subst hj
      obtain ⟨b, hb⟩ := Option.isSome_iff_exists.mp h
      rw [get?] at hb
      simp [hb]
    · simp [hj, get?]
  · rename_i h
    have hk : t.get? k = none := by
      simpa [contains, Option.isSome_iff_ne_none] using h
    rw [get?, lookup_append_singleton]
    by_cases hj : j = k
    · subst hj
      rw [get?] at hk
      simp [hk]
    · simp [hj, get?]

theorem contains_insert_self (t : Table κ α) (k : κ) (a : α) : (t.insert k a).contains k = true := by
  rw [contains, get?_insert, if_pos rfl]
  rfl

theorem lookup_filter_key (p : κ → Bool) (j : κ) (l : List (κ × α)) :
    (l.filter fun e => p e.1).lookup j = if p j then l.lookup j else none := by
  induction l with
  | nil => simp
  | cons e rest ih =>
    obtain ⟨i, b⟩ := e
    rw [List.filter_cons]
    by_cases hi : p i
    · rw [if_pos hi, List.lookup_cons, List.lookup_cons, ih]
      by_cases hj : j = i
      · subst hj; simp [hi]
      · have : (j == i) = false := by simpa using hj
        simp [this]
    · rw [if_neg hi, ih, List.lookup_cons]
      by_cases hj : j = i
      · subst hj; simp [hi]
      · have : (j == i) = false := by simpa using hj
        simp [this]

@[simp] theorem get?_erase (t : Table κ α) (k j : κ) :
    (t.erase k).get? j = if j = k then none else t.get? j := by
  rw [get?, erase, filter, lookup_filter_key (fun i => decide (i ≠ k))]
  by_cases h : j = k <;> simp [h, get?]

theorem filter_overwrite (k : κ) (a : α) (l : List (κ × α)) :
    (overwrite k a l).filter (fun e => decide (e.1 ≠ k)) = l.filter fun e => decide (e.1 ≠ k) := by
  induction l with
  | nil => rfl
  | cons e rest ih =>
    rw [overwrite] at ih
    rw [overwrite, List.map_cons, List.filter_cons, List.filter_cons, ih]
    by_cases he : e.1 = k <;> simp [he]

/-- Dropping a key drops what has just been written there. -/
theorem erase_insert (t : Table κ α) (k : κ) (a : α) : (t.insert k a).erase k = t.erase k := by
  apply ext
  show (t.insert k a).entries.filter (fun e => decide (e.1 ≠ k)) = _
  unfold insert
  split
  next => exact filter_overwrite k a t.entries
  next => simp [erase, filter]

/-- Dropping a key that is not there changes nothing. -/
theorem erase_of_get?_eq_none {t : Table κ α} {k : κ} (h : t.get? k = none) : t.erase k = t := by
  apply ext
  refine List.filter_eq_self.mpr fun e he => ?_
  exact decide_eq_true (lookup_eq_none_iff.mp h e he)

theorem isEmpty_iff {t : Table κ α} : t.isEmpty = true ↔ ∀ k, t.get? k = none := by
  constructor
  · intro h k
    rw [get?, List.isEmpty_iff.mp h]
    rfl
  · intro h
    refine List.isEmpty_iff.mpr (List.eq_nil_iff_forall_not_mem.mpr fun e he => ?_)
    have := get?_eq_some_iff.mpr he
    rw [h e.1] at this
    cases this

theorem contains_eq_false_iff {t : Table κ α} {k : κ} : t.contains k = false ↔ t.get? k = none := by
  rw [contains, Option.isSome_eq_false_iff, Option.isNone_iff_eq_none]

/-- The values are what can be looked up. -/
theorem mem_values_iff {t : Table κ α} {a : α} : a ∈ t.values ↔ ∃ k, t.get? k = some a := by
  simp only [values, get?_eq_some_iff, List.mem_map, Prod.exists, exists_eq_right]

/-- A new key goes to the end. -/
theorem entries_insert_of_new {t : Table κ α} {k : κ} (h : t.contains k = false) (a : α) :
    (t.insert k a).entries = t.entries ++ [(k, a)] := by
  rw [insert, dif_neg (Bool.eq_false_iff.mp h)]

/-- Where no key comes twice, the table is the list. -/
theorem entries_ofList {l : List (κ × α)} (h : l.Pairwise fun a b => a.1 ≠ b.1) :
    (ofList l).entries = l := by
  suffices hfold : ∀ (l : List (κ × α)) (t : Table κ α),
      (t.entries ++ l).Pairwise (fun a b => a.1 ≠ b.1) →
        (l.foldl (fun t e => t.insert e.1 e.2) t).entries = t.entries ++ l from
    hfold l empty h
  intro l
  induction l with
  | nil => exact fun t _ => (List.append_nil _).symm
  | cons e rest ih =>
    intro t hdistinct
    have hnew : t.contains e.1 = false := by
      rw [contains_eq_false_iff, get?, lookup_eq_none_iff]
      exact fun f hf => (List.pairwise_append.mp hdistinct).2.2 f hf e List.mem_cons_self
    have hentries := entries_insert_of_new hnew e.2
    rw [List.append_cons] at hdistinct
    rw [List.foldl_cons, ih _ (hentries ▸ hdistinct), hentries, ← List.append_cons]

end Table

end ObjectGraph
