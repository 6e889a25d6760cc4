import AliasScript.Tree.Same
import Mathlib.Algebra.Order.Ring.Int
import Mathlib.Tactic.Ring

/-!
# Equality of numbers

Every finite decimal is a whole multiple of the smallest positive one (`Double.units`), and of the
decimals other than zero no two are the same multiple (`Double.eq_of_units`). So the equality of
scalars is the equality of their values, whether they are decimals, numbers or truth values
(`Scalar.same_iff_of_units?`).
-/

namespace AliasScript

namespace Double

variable {x y : Double}

/-- The smallest positive number has so many places behind the binary point. -/
@[irreducible] def places : Nat := 1074

/-- The power of two by which a unit of the mantissa is larger than the smallest positive number. -/
def shift (x : Double) : Nat := max x.exponentField 1 - 1

def unitCount (x : Double) : Nat := x.mantissa * 2 ^ x.shift

/-- A finite number as a multiple of the smallest positive one, which is `2 ^ -1074`. -/
def units (x : Double) : Int := if x.isNegative then -(x.unitCount : Int) else x.unitCount

theorem eq_of_fields (sign : x.isNegative = y.isNegative)
    (exponents : x.exponentField = y.exponentField)
    (fractions : x.fractionField = y.fractionField) : x = y := by
  obtain ⟨a⟩ := x
  obtain ⟨b⟩ := y
  have small := a.toNat_lt
  have small' := b.toNat_lt
  simp only [isNegative, exponentField, fractionField, Nat.pow_eq, Nat.reducePow] at *
  rw [Bool.eq_iff_iff, beq_iff_eq, beq_iff_eq] at sign
  have same : a.toNat = b.toNat := by omega
  rw [UInt64.toNat_inj.1 same]

theorem mantissa_lt (x : Double) : x.mantissa < 2 ^ 53 := by
  simp only [mantissa, fractionField, Nat.pow_eq, Nat.reducePow]
  split <;> omega

theorem le_mantissa (normal : x.exponentField ≠ 0) : 2 ^ 52 ≤ x.mantissa := by
  rw [mantissa, if_neg normal]
  exact Nat.le_add_left ..

theorem shift_le_of_unitCount (same : x.unitCount = y.unitCount) : y.shift ≤ x.shift := by
  by_contra less
  obtain ⟨k, more⟩ := Nat.exists_eq_add_of_lt (Nat.lt_of_not_le less)
  have normal : y.exponentField ≠ 0 := by
    rw [shift, shift] at more
    omega
  -- The larger unit is at least doubled, which is too much for the mantissa of the smaller one.
  have doubled : x.mantissa = y.mantissa * 2 ^ k * 2 := by
    refine Nat.eq_of_mul_eq_mul_right (Nat.two_pow_pos x.shift) ?_
    rw [← unitCount, same, unitCount, more]
    ring
  have positive := Nat.two_pow_pos k
  have large := Nat.le_mul_of_pos_right y.mantissa positive
  have := x.mantissa_lt
  have := le_mantissa normal
  omega

theorem fields_of_unitCount (same : x.unitCount = y.unitCount) :
    x.exponentField = y.exponentField ∧ x.fractionField = y.fractionField := by
  have shifts := Nat.le_antisymm (shift_le_of_unitCount same.symm) (shift_le_of_unitCount same)
  rw [unitCount, unitCount, shifts] at same
  have mantissas := Nat.eq_of_mul_eq_mul_right (Nat.two_pow_pos _) same
  have small : x.fractionField < 2 ^ 52 := Nat.mod_lt _ (Nat.two_pow_pos 52)
  have small' : y.fractionField < 2 ^ 52 := Nat.mod_lt _ (Nat.two_pow_pos 52)
  simp only [mantissa, shift, Nat.pow_eq, Nat.reducePow] at *
  split at mantissas <;> split at mantissas <;> omega

theorem natAbs_units (x : Double) : x.units.natAbs = x.unitCount := by
  rw [units]
  split <;> simp

/-- Of the numbers other than zero no two have the same value. -/
theorem eq_of_units (same : x.units = y.units) (some : x.units ≠ 0) : x = y := by
  have counts := congrArg Int.natAbs same
  rw [natAbs_units, natAbs_units] at counts
  obtain ⟨exponents, fractions⟩ := fields_of_unitCount counts
  refine eq_of_fields ?_ exponents fractions
  rw [units, units, ← counts] at same
  rw [units] at some
  cases left : x.isNegative <;> cases right : y.isNegative <;>
    simp only [left, right, Bool.false_eq_true, if_true, if_false] at some same ⊢ <;> omega

theorem exponent_eq (x : Double) : x.exponent = x.shift - places := by
  rw [exponent, shift, places]
  omega

theorem scaleDown_of_isWhole (whole : x.isWhole = true) :
    scaleDown x.mantissa x.exponent * 2 ^ places = x.unitCount := by
  obtain ⟨-, whole⟩ := Bool.and_eq_true_iff.1 whole
  rw [Bool.or_eq_true, decide_eq_true_eq, beq_iff_eq] at whole
  have exponent := x.exponent_eq
  rw [scaleDown, unitCount]
  by_cases small : x.exponent < 0
  · obtain ⟨q, same⟩ := Nat.dvd_of_mod_eq_zero (whole.resolve_left (by omega))
    have sum : places = x.exponent.natAbs + x.shift := by omega
    rw [Nat.pow_eq] at same
    rw [if_pos small, same, Nat.pow_eq, Nat.mul_div_cancel_left _ (Nat.two_pow_pos _), sum]
    ring
  · have sum : x.shift = x.exponent.natAbs + places := by omega
    rw [if_neg small, sum, Nat.pow_eq]
    ring

theorem isWhole_of_unitCount (finite : x.isFinite = true) {n : Nat}
    (same : x.unitCount = n * 2 ^ places) : x.isWhole = true := by
  rw [isWhole, finite, Bool.true_and, Bool.or_eq_true, decide_eq_true_eq, beq_iff_eq]
  by_contra! fraction
  have exponent := x.exponent_eq
  have sum : places = x.exponent.natAbs + x.shift := by omega
  have multiple : x.mantissa = n * 2 ^ x.exponent.natAbs := by
    refine Nat.eq_of_mul_eq_mul_right (Nat.two_pow_pos x.shift) ?_
    rw [← unitCount, same, mul_assoc, ← pow_add, ← sum]
  exact fraction.2 (by rw [multiple, Nat.pow_eq, Nat.mul_mod_left])

/-- A finite number is whole where it is a multiple of one, and it is that multiple. -/
theorem whole?_eq_some_iff (finite : x.isFinite = true) {n : Int} :
    x.whole? = some n ↔ x.units = n * 2 ^ places := by
  have positive : (0 : Int) < 2 ^ places := pow_pos two_pos places
  rw [whole?]
  split
  · next whole =>
    have count : (scaleDown x.mantissa x.exponent : Int) * 2 ^ places = x.unitCount := by
      rw [← scaleDown_of_isWhole whole]
      push_cast
      rfl
    rw [truncate?, if_pos finite, Option.some.injEq, units]
    split
    · rw [← count, ← neg_mul]
      exact ⟨fun same => same ▸ rfl, fun same => mul_right_cancel₀ positive.ne' same⟩
    · rw [← count]
      exact ⟨fun same => same ▸ rfl, fun same => mul_right_cancel₀ positive.ne' same⟩
  · next fraction =>
    refine iff_of_false nofun fun same => fraction (isWhole_of_unitCount finite (n := n.natAbs) ?_)
    have count := congrArg Int.natAbs same
    rwa [natAbs_units, Int.natAbs_mul, Int.natAbs_pow] at count

end Double

namespace Scalar

open Double (places)

/-- The value of a finite number, in units of the smallest positive decimal. -/
def units? : Scalar → Option Int
  | .number n => some (n * 2 ^ places)
  | .truth b => some ((if b then 1 else 0) * 2 ^ places)
  | .decimal x => if x.isFinite then some x.units else none
  | _ => none

/-- A number counts as the whole number that it is, or as a decimal that is no whole number. -/
theorem normal_of_units? {s : Scalar} {a : Int} (value : s.units? = some a) :
    (∃ n, s.normal = .number n ∧ a = n * 2 ^ places) ∨
      ∃ x, s.normal = .decimal x ∧ x.isUndefined = false ∧ a = x.units ∧
        ∀ n : Int, x.units ≠ n * 2 ^ places := by
  cases s with
  | number n =>
    cases value
    exact .inl ⟨n, rfl, rfl⟩
  | truth b =>
    cases value
    exact .inl ⟨_, rfl, rfl⟩
  | decimal x =>
    rw [units?] at value
    split at value
    · next finite =>
      cases value
      rw [normal]
      cases whole : x.whole? with
      | some n => exact .inl ⟨n, rfl, (Double.whole?_eq_some_iff finite).1 whole⟩
      | none =>
        refine .inr ⟨x, rfl, by rw [Double.isUndefined, finite]; rfl, rfl, fun n same => ?_⟩
        cases whole.symm.trans ((Double.whole?_eq_some_iff finite).2 same)
    · cases value
  | _ => cases value

/-- Finite numbers of any kind are equal exactly where their values are. -/
theorem same_iff_of_units? {s t : Scalar} {a b : Int} (value : s.units? = some a)
    (value' : t.units? = some b) : s.same t = true ↔ a = b := by
  have one : (2 : Int) ^ places ≠ 0 := (pow_pos two_pos places).ne'
  rw [same_iff]
  rcases normal_of_units? value with ⟨n, counts, rfl⟩ | ⟨x, counts, defined, rfl, fraction⟩ <;>
    rcases normal_of_units? value' with ⟨k, counts', rfl⟩ | ⟨y, counts', -, rfl, fraction'⟩ <;>
      rw [counts, counts']
  · rw [number.injEq, mul_left_inj' one]
    exact and_iff_left rfl
  · exact iff_of_false (fun h => nomatch h.1) (fun same => fraction' n same.symm)
  · exact iff_of_false (fun h => nomatch h.1) (fraction k)
  · rw [decimal.injEq, and_iff_left (show isUndefined (.decimal x) = false from defined)]
    refine ⟨fun same => same ▸ rfl, fun same => Double.eq_of_units same fun zero => ?_⟩
    exact fraction 0 (zero.trans (zero_mul _).symm)

end Scalar

end AliasScript
