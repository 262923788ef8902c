/-!
# Digits

A natural number and its digits in base ten, most significant first, and the characters for them.
`value_digitsOf`: the digits of a number have that number as their value. Numbers of other bases are
only read.
-/

set_option autoImplicit false

namespace ObjectGraph

/-- A digit of base ten. -/
abbrev Digit := Fin 10

namespace Digit

def zero : Digit := 0

def char (d : Digit) : Char := Nat.digitChar d.val

/-- The digit that a character stands for. Only the ten ASCII digits stand for one. -/
def ofChar? (c : Char) : Option Digit :=
  if h : '0' ≤ c ∧ c ≤ '9' then
    some ⟨c.toNat - '0'.toNat, by
      have hc : c.toNat ≤ '9'.toNat := h.2
      have h9 : '9'.toNat = 57 := rfl
      have h0 : '0'.toNat = 48 := rfl
      omega⟩
  else
    none

@[simp] theorem ofChar?_char (d : Digit) : ofChar? d.char = some d := by
  revert d
  decide

/-- The number that digits write, on top of what stands before them. -/
def accumulate (start : Nat) (ds : List Digit) : Nat := ds.foldl (fun n d => 10 * n + d.val) start

/-- The number that digits write. -/
def value (ds : List Digit) : Nat := accumulate 0 ds

/-- The digits of `n` in front of the given ones. -/
def prepend (n : Nat) (ds : List Digit) : List Digit :=
  if h : n < 10 then ⟨n, h⟩ :: ds
  else prepend (n / 10) (⟨n % 10, Nat.mod_lt n (by decide)⟩ :: ds)

/-- The digits of a natural number, without leading zeros; zero has one digit. -/
def digitsOf (n : Nat) : List Digit := prepend n []

theorem value_prepend (n : Nat) (ds : List Digit) : value (prepend n ds) = accumulate n ds := by
  fun_induction prepend n ds with
  | case1 n ds h => simp [value, accumulate]
  | case2 n ds h ih =>
    rw [ih]
    simp only [accumulate, List.foldl_cons]
    congr 1
    omega

@[simp] theorem value_digitsOf (n : Nat) : value (digitsOf n) = n := value_prepend n []

theorem prepend_ne_nil (n : Nat) (ds : List Digit) : prepend n ds ≠ [] := by
  fun_induction prepend n ds <;> simp_all

theorem digitsOf_ne_nil (n : Nat) : digitsOf n ≠ [] := prepend_ne_nil n []

end Digit

/-- The value of a hexadecimal digit in either case. -/
def hexValue? (c : Char) : Option Nat :=
  if '0' ≤ c ∧ c ≤ '9' then some (c.toNat - '0'.toNat)
  else if 'a' ≤ c ∧ c ≤ 'f' then some (c.toNat - 'a'.toNat + 10)
  else if 'A' ≤ c ∧ c ≤ 'F' then some (c.toNat - 'A'.toNat + 10)
  else none

/-- The number that digits of a base up to sixteen write; there must be at least one. -/
def valueInBase? (base : Nat) : List Char → Option Nat
  | [] => none
  | cs => cs.foldlM (fun n c =>
      match hexValue? c with
      | some d => if d < base then some (n * base + d) else none
      | none => none) 0

end ObjectGraph
