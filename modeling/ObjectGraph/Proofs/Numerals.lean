import ObjectGraph.Json.Parts

/-!
# Well-formed numerals

A numeral is well formed (`Numeral.Proper`) when it has a digit before the point, no zero in front of
other digits there, and digits in its power of ten if there is one. Whole numbers are written so, and
so are the finite binary numbers in compact notation (`Binary64.proper_compactNumeral`): the shortest
decimal of a number other than zero has no zero in front, since a grid point is never zero and dropping
zeros at the end leaves something.

A whole number of 64 bits is read back from its numeral (`Numeral.toInt64?_ofInt`).
-/

set_option autoImplicit false

namespace ObjectGraph

namespace Digit

theorem zero_eq_mk_iff {n : Nat} (h : n < 10) : (⟨n, h⟩ : Digit) = zero ↔ n = 0 := by
  rw [zero, Fin.ext_iff]
  rfl

/-- The digits of a number begin with zero only if the number is zero. -/
theorem exists_prepend_eq_cons (n : Nat) (ds : List Digit) :
    ∃ d es, prepend n ds = d :: es ∧ (d = zero → n = 0) := by
  fun_induction prepend n ds with
  | case1 n ds h => exact ⟨_, _, rfl, (zero_eq_mk_iff h).mp⟩
  | case2 n ds h ih =>
    obtain ⟨d, es, heq, hzero⟩ := ih
    refine ⟨d, es, heq, fun hd => ?_⟩
    have := hzero hd
    omega

theorem exists_digitsOf_eq_cons (n : Nat) :
    ∃ d ds, digitsOf n = d :: ds ∧ (d = zero → n = 0) := exists_prepend_eq_cons n []

theorem digitsOf_zero : digitsOf 0 = [zero] := by
  rw [digitsOf, prepend]
  rfl

end Digit

namespace Numeral

/-- Digits that may stand before a point: at least one, and zero in front only if it is the only
one. -/
def ProperWhole (ds : List Digit) : Prop := ∃ d es, ds = d :: es ∧ (d = .zero → es = [])

/-- The numeral is well formed. -/
structure Proper (n : Numeral) : Prop where
  whole : ProperWhole n.whole
  power : ∀ e, n.exponent = some e → e.digits ≠ []

theorem properWhole_digitsOf (n : Nat) : ProperWhole (Digit.digitsOf n) := by
  obtain ⟨d, ds, heq, hzero⟩ := Digit.exists_digitsOf_eq_cons n
  refine ⟨d, ds, heq, fun hd => ?_⟩
  rw [hzero hd, Digit.digitsOf_zero] at heq
  exact (List.cons.inj heq).2.symm

theorem proper_ofInt (i : Int) : (ofInt i).Proper :=
  ⟨properWhole_digitsOf i.natAbs, fun _ he => nomatch he⟩

/-- A number of 64 bits is read back from its numeral. -/
theorem toInt64?_ofInt (i : Int64) : (ofInt i.toInt).toInt64? = some i := by
  have hlow := i.le_toInt
  have hhigh := i.toInt_lt
  have hlimit : (1 <<< 63 : Nat) = 2 ^ 63 := rfl
  have hwhole : (ofInt i.toInt).isWhole = true := rfl
  simp only [toInt64?, hwhole, Bool.not_true, Bool.false_eq_true, if_false, hlimit]
  simp only [ofInt, Digit.value_digitsOf]
  by_cases hneg : i.toInt < 0
  · have hmagnitude : 0 < i.toInt.natAbs ∧ i.toInt.natAbs ≤ 2 ^ 63 := by omega
    have hsigned : -(i.toInt.natAbs : Int) = i.toInt := by omega
    rw [decide_eq_true hneg, if_pos rfl, if_pos hmagnitude, hsigned, Int64.ofInt_toInt]
  · have hmagnitude : i.toInt.natAbs < 2 ^ 63 := by omega
    have hsigned : (i.toInt.natAbs : Int) = i.toInt := by omega
    rw [decide_eq_false hneg, if_neg Bool.false_ne_true, if_pos hmagnitude, hsigned,
      Int64.ofInt_toInt]

end Numeral

/-! ## Shortest decimals -/

namespace Decimal

/-- Zero has no power of ten. -/
def Settled (d : Decimal) : Prop := d.digits = 0 → d.exponent = 0

theorem digits_ne_zero_of_gridPoint? {tie : Tie} {i : Interval} {e : Int} {d : Decimal}
    (h : gridPoint? tie i e = some d) : d.digits ≠ 0 := by
  simp only [gridPoint?] at h
  generalize i.value * (tenPower e).2 / (tenPower e).1 <<< 1076 = below at h
  split at h
  next => cases h
  next hbelow _ =>
    obtain rfl := Option.some.inj h
    simpa using (Bool.and_eq_true_iff.mp hbelow).1
  next =>
    obtain rfl := Option.some.inj h
    exact Nat.succ_ne_zero _
  next hbelow _ =>
    have hbelow : below ≠ 0 := by simpa using (Bool.and_eq_true_iff.mp hbelow).1
    have habove : below + 1 ≠ 0 := Nat.succ_ne_zero below
    -- one of the two, whatever decides between them
    repeat' split at h
    all_goals
      obtain rfl := Option.some.inj h
      assumption

theorem digits_ne_zero_of_firstPoint? {tie : Tie} {i : Interval} {top : Int} {count : Nat}
    {d : Decimal} (h : firstPoint? tie i top count = some d) : d.digits ≠ 0 := by
  induction count generalizing top with
  | zero => cases h
  | succ count ih =>
    rw [firstPoint?, Option.or_eq_some_iff] at h
    rcases h with h | ⟨-, h⟩
    · exact digits_ne_zero_of_gridPoint? h
    · exact ih h

theorem digits_dropZeros_ne_zero {fuel : Nat} {d : Decimal} (h : d.digits ≠ 0) :
    (dropZeros fuel d).digits ≠ 0 := by
  induction fuel generalizing d with
  | zero => exact h
  | succ fuel ih =>
    rw [dropZeros]
    split
    next hdrop => exact ih (by simp only; omega)
    next => exact h

theorem settled_shortest (tie : Tie) (x : Binary64) : (shortest tie x).Settled := by
  unfold shortest
  split
  · exact fun _ => rfl
  · split
    next d hd => exact fun h => absurd h (digits_dropZeros_ne_zero (digits_ne_zero_of_firstPoint? hd))
    next => exact fun _ => rfl

theorem properWhole_positional {d : Decimal} (hd : d.Settled) (negative : Bool) :
    Numeral.ProperWhole (d.positional negative).whole := by
  obtain ⟨e, es, hdigits, hzero⟩ := Digit.exists_digitsOf_eq_cons d.digits
  have hlength : (Digit.digitsOf d.digits).length = es.length + 1 := by rw [hdigits, List.length_cons]
  unfold positional
  split
  next hexponent =>
    -- zero has no places to be filled up
    refine ⟨e, es ++ zeros d.exponent.toNat, by simp [hdigits], fun he => ?_⟩
    have hnone := hd (hzero he)
    have hsingle : es = [] := by
      rw [hzero he, Digit.digitsOf_zero] at hdigits
      exact (List.cons.inj hdigits).2.symm
    rw [hsingle, hnone]
    rfl
  next hexponent =>
    split
    next hpoint =>
      obtain ⟨places, hplaces⟩ : ∃ places, d.point.toNat = places + 1 := ⟨d.point.toNat - 1, by omega⟩
      refine ⟨e, es.take places, by simp [hdigits, hplaces], fun he => ?_⟩
      -- zero has a single digit, and no point behind it
      rw [hzero he, Digit.digitsOf_zero] at hdigits
      rw [← (List.cons.inj hdigits).2, List.take_nil]
    next => exact ⟨.zero, [], rfl, fun _ => rfl⟩

theorem proper_compact {d : Decimal} (hd : d.Settled) (negative : Bool) :
    (d.compact negative).Proper := by
  have hpositional : (d.positional negative).exponent = none := by
    unfold positional
    split
    · rfl
    · split <;> rfl
  unfold compact
  split
  · exact ⟨properWhole_positional hd negative, fun e he => nomatch hpositional.symm.trans he⟩
  · split
    · exact ⟨properWhole_positional hd negative, fun e he => nomatch hpositional.symm.trans he⟩
    · obtain ⟨e, es, hdigits, -⟩ := Digit.exists_digitsOf_eq_cons d.digits
      refine ⟨⟨e, [], by simp [scientific, hdigits], fun _ => rfl⟩, fun power hpower => ?_⟩
      obtain rfl := Option.some.inj hpower
      exact Digit.digitsOf_ne_nil _

end Decimal

/-- Finite numbers in compact notation are well formed. -/
theorem Binary64.proper_compactNumeral (x : Binary64) : x.compactNumeral.Proper :=
  Decimal.proper_compact (Decimal.settled_shortest .toEven x) x.isNegative

end ObjectGraph
