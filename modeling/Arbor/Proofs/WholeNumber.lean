import Mathlib
import Arbor.Json.Basic

/-! # Numbers survive being written

A number is written as a whole number where it is one within the safe bound, and as a double otherwise.
Reading it back gives the same number, except that the sign of zero is lost. The whole numbers are the
point: a mantissa of 53 bits and an exponent are taken apart into a whole number, and the double nearest
to that has to come out with the very same bits. -/

namespace Arbor.Decimal

section Parts

/-- A double whose exponent bits are all set is not finite. -/
theorem exponent_ne_of_isFinite {x : Float} (finite : x.isFinite = true) :
    x.toBits.toNat / twoTo 52 % twoTo 11 ≠ twoTo 11 - 1 := by
  intro ones
  have allOnes : @Float.Model.UnpackedFloat.unpackExponent Float.Model.Format.binary64
      x.toBits.toBitVec = -1#11 := by
    apply BitVec.eq_of_toNat_eq
    rw [Float.Model.UnpackedFloat.unpackExponent_def, BitVec.extractLsb'_toNat,
      Nat.shiftRight_eq_div_pow]
    exact ones
  have unpacked : (Float.Model.UnpackedFloat.unpack Float.Model.Format.binary64
      x.toBits.toBitVec).isFinite = true := finite
  rw [Float.Model.UnpackedFloat.unpack] at unpacked
  dsimp only at unpacked
  rw [if_pos allOnes] at unpacked
  split at unpacked <;> contradiction

/-- The mantissa and exponent a finite double can have. -/
structure InRange (mantissa : Nat) (exponent : Int) : Prop where
  mantissa_lt : mantissa < twoTo 53
  le_exponent : minExponent ≤ exponent
  exponent_le : exponent ≤ maxExponent
  smallest : mantissa < twoTo 52 → exponent = minExponent

/-- A bit pattern is its sign, its exponent and its fraction. -/
theorem bits_eq {bits : Nat} (bound : bits < twoTo 64) :
    (if (bits / twoTo 63 == 1) = true then twoTo 63 else 0) +
      (bits / twoTo 52 % twoTo 11 * twoTo 52 + bits % twoTo 52) = bits := by
  have sign : bits / 9223372036854775808 < 2 := Nat.div_lt_of_lt_mul bound
  show (if (bits / 9223372036854775808 == 1) = true then 9223372036854775808 else 0) +
    (bits / 4503599627370496 % 2048 * 4503599627370496 + bits % 4503599627370496) = bits
  split
  · next negative =>
    have isOne := beq_iff_eq.mp negative
    omega
  · next positive =>
    have notOne : bits / 9223372036854775808 ≠ 1 := fun isOne => positive (beq_iff_eq.mpr isOne)
    omega

private theorem assemble_of_inRange (negative : Bool) {mantissa : Nat} {exponent : Int}
    (range : InRange mantissa exponent) :
    assemble negative mantissa exponent = Float.ofBits (UInt64.ofNat
      ((if negative then twoTo 63 else 0) + if mantissa < twoTo 52 then mantissa
        else (exponent - minExponent + 1).toNat * twoTo 52 + (mantissa - twoTo 52))) := by
  have inside : ¬ exponent > maxExponent := not_lt.mpr range.exponent_le
  simp only [assemble, inside, if_false]

/-- A finite double is put together again from its parts. -/
theorem assemble_of_finite {x : Float} (finite : x.isFinite = true) :
    ∃ negative mantissa exponent, Double.ofFloat x = .finite negative mantissa exponent ∧
      InRange mantissa exponent ∧ assemble negative mantissa exponent = x := by
  have whole := bits_eq (UInt64.toNat_lt x.toBits)
  have notOnes := exponent_ne_of_isFinite finite
  have again : Float.ofBits (UInt64.ofNat x.toBits.toNat) = x := by
    rw [UInt64.ofNat_toNat, Float.ofBits_toBits]
  simp only [Double.ofFloat, beq_iff_eq, notOnes, if_false]
  generalize x.toBits.toNat = bits at *
  have fraction : bits % twoTo 52 < twoTo 52 := Nat.mod_lt _ (by decide)
  have biased : bits / twoTo 52 % twoTo 11 < twoTo 11 := Nat.mod_lt _ (by decide)
  generalize bits % twoTo 52 = low at *
  generalize bits / twoTo 52 % twoTo 11 = middle at *
  split
  · next subnormal =>
    have range : InRange low minExponent :=
      ⟨fraction.trans (by decide), by decide, by decide, fun _ => rfl⟩
    refine ⟨_, low, minExponent, rfl, range, ?_⟩
    rw [subnormal, Nat.zero_mul, Nat.zero_add] at whole
    rw [assemble_of_inRange _ range, if_pos fraction, whole, again]
  · next normal =>
    have range : InRange (twoTo 52 + low) (minExponent + middle - 1) := by
      have top : middle < 2047 := by
        have limit : middle < 2048 := biased
        have other : middle ≠ 2047 := notOnes
        omega
      have double : twoTo 53 = twoTo 52 + twoTo 52 := rfl
      refine ⟨by omega, ?_, ?_, fun less => by omega⟩ <;>
        simp only [minExponent, maxExponent] <;> omega
    refine ⟨_, twoTo 52 + low, minExponent + middle - 1, rfl, range, ?_⟩
    have back : (minExponent + middle - 1 - minExponent + 1).toNat = middle := by omega
    have large : ¬ twoTo 52 + low < twoTo 52 := by omega
    rw [assemble_of_inRange _ range, if_neg large, back, Nat.add_sub_cancel_left, whole, again]

end Parts

section Whole

/-- The double nearest to a whole number has the mantissa the number is scaled to. -/
theorem nearest_of_scaled (negative : Bool) {whole mantissa k : Nat}
    (scaled : mantissa = whole * twoTo k) (lower : twoTo 52 ≤ mantissa) (upper : mantissa < twoTo 53) :
    nearest negative whole 1 = assemble negative mantissa (-k) := by
  have positive : whole ≠ 0 := by
    rintro rfl
    rw [Nat.zero_mul] at scaled
    exact absurd (scaled ▸ lower) (by decide)
  have small : k ≤ 52 := by
    by_contra large
    have grows : twoTo 53 ≤ twoTo k := Nat.pow_le_pow_right (by decide) (by omega)
    have atLeast : twoTo k ≤ mantissa := scaled ▸ Nat.le_mul_of_pos_left _ (Nat.pos_of_ne_zero positive)
    omega
  have width : whole.log2 = 52 - k := by
    rw [Nat.log2_eq_iff positive]
    have below : twoTo 52 = twoTo (52 - k) * twoTo k := by
      rw [show twoTo 52 = twoTo (52 - k + k) by rw [Nat.sub_add_cancel small]]
      exact Nat.pow_add 2 _ _
    have above : twoTo 53 = twoTo (52 - k + 1) * twoTo k := by
      rw [show twoTo 53 = twoTo (52 - k + 1 + k) by congr 1; omega]
      exact Nat.pow_add 2 _ _
    have unit : 0 < twoTo k := Nat.two_pow_pos k
    rw [scaled, below] at lower
    rw [scaled, above] at upper
    exact ⟨Nat.le_of_mul_le_mul_right lower unit, Nat.lt_of_mul_lt_mul_right upper⟩
  have guess : ((whole.log2 : Int) - (Nat.log2 1 : Nat) - 52) = -k := by
    rw [width, show Nat.log2 1 = 0 from rfl]
    omega
  have divide : scaledDivide whole 1 (-k) = (mantissa, 0, 1) := by
    have up : (- -(k : Int)).toNat = k := by omega
    have down : (-(k : Int)).toNat = 0 := by omega
    rw [scaledDivide, up, down, ← scaled]
    show (mantissa / 1, mantissa % 1, 1) = (mantissa, 0, 1)
    rw [Nat.div_one, Nat.mod_one]
  have inRange : max (-(k : Int)) minExponent = -k := max_eq_left (by rw [minExponent]; omega)
  have noCarry : mantissa ≠ twoTo 53 := Nat.ne_of_lt upper
  have enough : ¬ mantissa < twoTo 52 := not_lt.mpr lower
  have noRemainder : (decide (2 * 0 > 1) || 2 * 0 == 1 && mantissa % 2 == 1) = false := rfl
  simp only [nearest, beq_iff_eq, positive, guess, divide, enough, inRange, noRemainder,
    Bool.false_eq_true, noCarry, if_false]

/-- What equals zero is one of the two zeros. -/
theorem ofFloat_of_beq_zero {x : Float} (isZero : (x == 0) = true) :
    ∃ negative, Double.ofFloat x = .finite negative 0 minExponent := by
  obtain ⟨-, -, rfl | ⟨rfl, -⟩ | ⟨rfl, -⟩⟩ := Float.beq_iff_ne_nan_and_eq.mp isZero
  · exact ⟨false, by decide⟩
  · exact ⟨false, by decide⟩
  · exact ⟨true, by decide⟩

private theorem assemble_zero_beq (negative : Bool) :
    (assemble negative 0 minExponent == 0) = true := by
  cases negative <;> decide

private theorem ofInt_zero : ofInt 0 = 0 := rfl

private theorem ofInt_signed (negative : Bool) {whole : Nat} (positive : 0 < whole) :
    ofInt (if negative then -whole else whole) = nearest negative whole 1 := by
  cases negative with
  | true => simp [ofInt, positive]
  | false =>
    have unsigned : ¬ (whole : Int) < 0 := by omega
    simp [ofInt, unsigned]

/-- A double other than zero that is a whole number within the safe bound has a full mantissa, and is
the whole number scaled to it. -/
theorem InRange.scaled {mantissa : Nat} {exponent : Int} (range : InRange mantissa exponent)
    (nonzero : mantissa ≠ 0) (divides : mantissa % twoTo (-exponent).toNat = 0)
    (within : mantissa * twoTo exponent.toNat / twoTo (-exponent).toNat < safeBound) :
    ∃ k : Nat, exponent = -k ∧ twoTo 52 ≤ mantissa ∧
      mantissa = mantissa * twoTo exponent.toNat / twoTo (-exponent).toNat * twoTo k := by
  have lower : twoTo 52 ≤ mantissa := by
    by_contra less
    have deep : 52 ≤ (-exponent).toNat := by
      rw [range.smallest (not_le.mp less)]
      decide
    have large : twoTo 52 ≤ twoTo (-exponent).toNat := Nat.pow_le_pow_right (by decide) deep
    rw [Nat.mod_eq_of_lt (by omega)] at divides
    exact nonzero divides
  have notAbove : exponent ≤ 0 := by
    by_contra above
    have one : twoTo (-exponent).toNat = 1 := by
      rw [show (-exponent).toNat = 0 by omega]
    have two : 2 ≤ twoTo exponent.toNat := by
      calc 2 = twoTo 1 := rfl
        _ ≤ twoTo exponent.toNat := Nat.pow_le_pow_right (by decide) (by omega)
    have grows : twoTo 52 * 2 ≤ mantissa * twoTo exponent.toNat := Nat.mul_le_mul lower two
    rw [one, Nat.div_one] at within
    have bound : safeBound = twoTo 52 * 2 := rfl
    omega
  refine ⟨(-exponent).toNat, by omega, lower, ?_⟩
  rw [show exponent.toNat = 0 by omega]
  show mantissa = mantissa * 1 / twoTo (-exponent).toNat * twoTo (-exponent).toNat
  rw [Nat.mul_one, Nat.div_mul_cancel (Nat.dvd_of_mod_eq_zero divides)]

/-- The double nearest to a whole number that a double stands for is that double, but for the sign of
zero. -/
theorem ofInt_of_safeInt? {x : Float} (finite : x.isFinite = true) {n : Int}
    (isWhole : safeInt? x = some n) : ofInt n = if x == 0 then 0 else x := by
  obtain ⟨negative, mantissa, exponent, parts, range, again⟩ := assemble_of_finite finite
  simp only [safeInt?, parts] at isWhole
  split at isWhole
  · next passed =>
    obtain ⟨divides, within⟩ : mantissa % twoTo (-exponent).toNat = 0 ∧
        mantissa * twoTo exponent.toNat / twoTo (-exponent).toNat < safeBound := by
      simpa using passed
    cases isWhole
    by_cases zero : mantissa = 0
    · subst zero
      obtain rfl := range.smallest (by decide)
      have isZero : (x == 0) = true := again ▸ assemble_zero_beq negative
      rw [if_pos isZero, Nat.zero_mul, Nat.zero_div]
      cases negative <;> exact ofInt_zero
    · have nonzero : ¬ (x == 0) = true := by
        intro isZero
        obtain ⟨sign, zeroParts⟩ := ofFloat_of_beq_zero isZero
        rw [parts, Double.finite.injEq] at zeroParts
        exact zero zeroParts.2.1
      obtain ⟨k, rfl, lower, scaled⟩ := range.scaled zero divides within
      have positive : 0 < mantissa * twoTo (-(k : Int)).toNat / twoTo (- -(k : Int)).toNat := by
        by_contra none
        rw [Nat.eq_zero_of_not_pos none, Nat.zero_mul] at scaled
        exact zero scaled
      rw [if_neg nonzero, ofInt_signed negative positive,
        nearest_of_scaled negative scaled lower range.mantissa_lt, again]
  · contradiction

/-- A finite number is written as a number that reads back as it, but for the sign of zero. -/
theorem toFloat_ofFloat {x : Float} (finite : x.isFinite = true) :
    ∃ n, Json.ofFloat x = .number n ∧ n.toFloat = if x == 0 then 0 else x := by
  rw [Json.ofFloat]
  cases isWhole : safeInt? x with
  | some n => exact ⟨.int n, rfl, ofInt_of_safeInt? finite isWhole⟩
  | none =>
    obtain ⟨negative, mantissa, exponent, parts, -, -⟩ := assemble_of_finite finite
    refine ⟨.double x, by rw [parts], ?_⟩
    rw [if_neg]
    · rfl
    · intro isZero
      obtain ⟨sign, zeroParts⟩ := ofFloat_of_beq_zero isZero
      simp [safeInt?, zeroParts, safeBound] at isWhole

end Whole

end Arbor.Decimal
