import ObjectGraph.Record

/-!
# Sets of records

The relationship records that a session tracks. A set is held as a list without repetitions; the
order of the list carries no meaning, and it stands for the order, whatever it may be, in which the
set is gone through.
-/

set_option autoImplicit false

namespace ObjectGraph

/-- A finite set of records. -/
structure RecordSet where
  toList : List Record
  nodup : toList.Nodup

namespace RecordSet

def empty : RecordSet := ⟨[], .nil⟩

instance : Membership Record RecordSet := ⟨fun s r => r ∈ s.toList⟩

instance (r : Record) (s : RecordSet) : Decidable (r ∈ s) :=
  inferInstanceAs (Decidable (r ∈ s.toList))

def size (s : RecordSet) : Nat := s.toList.length

def isEmpty (s : RecordSet) : Bool := s.toList.isEmpty

def insert (s : RecordSet) (r : Record) : RecordSet :=
  if h : r ∈ s then s
  else ⟨r :: s.toList, List.nodup_cons.mpr ⟨h, s.nodup⟩⟩

def filter (keep : Record → Bool) (s : RecordSet) : RecordSet :=
  ⟨s.toList.filter keep, s.nodup.filter _⟩

def erase (s : RecordSet) (r : Record) : RecordSet := s.filter fun q => q ≠ r

@[simp] theorem not_mem_empty (r : Record) : r ∉ empty :=
  fun h => absurd (h : r ∈ ([] : List Record)) List.not_mem_nil

@[simp] theorem mem_toList {s : RecordSet} {r : Record} : r ∈ s.toList ↔ r ∈ s := Iff.rfl

@[simp] theorem mem_insert {s : RecordSet} {r q : Record} : q ∈ s.insert r ↔ q = r ∨ q ∈ s := by
  unfold insert
  split
  · rename_i h
    exact ⟨.inr, fun hq => hq.elim (· ▸ h) id⟩
  · exact List.mem_cons

@[simp] theorem mem_filter {s : RecordSet} {keep : Record → Bool} {q : Record} :
    q ∈ s.filter keep ↔ q ∈ s ∧ keep q = true := List.mem_filter

@[simp] theorem mem_erase {s : RecordSet} {r q : Record} : q ∈ s.erase r ↔ q ∈ s ∧ q ≠ r := by
  rw [erase, mem_filter]
  simp

theorem size_filter_add (keep : Record → Bool) (s : RecordSet) :
    (s.filter keep).size + (s.toList.filter fun r => !keep r).length = s.size := by
  simp only [size, filter]
  induction s.toList with
  | nil => rfl
  | cons r rest ih =>
    by_cases h : keep r = true
    · simp only [List.filter_cons, h, if_true, List.length_cons, Bool.not_true, Bool.false_eq_true,
        if_false]
      omega
    · simp only [List.filter_cons, h, if_false, Bool.not_false, if_true, List.length_cons,
        Bool.false_eq_true]
      omega

theorem size_filter_le (keep : Record → Bool) (s : RecordSet) : (s.filter keep).size ≤ s.size := by
  have := size_filter_add keep s
  omega

end RecordSet

end ObjectGraph
