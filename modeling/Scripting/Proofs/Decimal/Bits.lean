import Scripting.Proofs.Decimal.Rounding

/-!
# The bits of doubles

A bit pattern that `Decimal.nearestBits` gives is zero, that of infinity, or the number of a
binade and the mantissa of a double in it; this double is what the pattern is read as.
To read it is to unpack the pattern, to pack what is found, and to unpack that again.

Main statements: `unpack_ofPattern`, `exists_mantissa`.
-/

namespace Scripting
namespace Decimal

open Float.Model (UnpackedFloat)
open Float.Model.UnpackedFloat

variable {bits mantissa binade : Nat}

/-- The double with a bit pattern. -/
def ofPattern (bits : Nat) : Float :=
  Float.ofBits (UInt64.ofNat bits)

theorem toNat_unpackExponent (unsigned : bits < 2 ^ 63) :
    (@unpackExponent .binary64 (UInt64.ofNat bits).toBitVec).toNat = bits / 2 ^ 52 := by
  simp [unpackExponent, Nat.shiftRight_eq_div_pow]
  omega

theorem toNat_unpackMantissa (bits : Nat) :
    (@unpackMantissa .binary64 (UInt64.ofNat bits).toBitVec).toNat = bits % 2 ^ 52 := by
  simp [unpackMantissa]

theorem unpackSign_eq (unsigned : bits < 2 ^ 63) :
    @unpackSign .binary64 (UInt64.ofNat bits).toBitVec = 0#1 := by
  apply BitVec.eq_of_toNat_eq
  unfold unpackSign
  simp [Nat.shiftRight_eq_div_pow]
  omega

theorem toNat_append_eq_add {high low : Nat} (upper : BitVec high) (lower : BitVec low) :
    (upper ++ lower).toNat = upper.toNat * 2 ^ low + lower.toNat := by
  rw [BitVec.toNat_append, ← Nat.shiftLeft_add_eq_or_of_lt lower.isLt, Nat.shiftLeft_eq]

theorem toNat_packComponents (exponent : BitVec 11) (mantissa : BitVec 52) :
    (packComponents .binary64 .positive exponent mantissa).toNat =
      exponent.toNat * 2 ^ 52 + mantissa.toNat := by
  have sign : (0#1 ++ exponent).toNat = exponent.toNat := by
    rw [toNat_append_eq_add, BitVec.toNat_zero, Nat.zero_mul, Nat.zero_add]
  rw [← sign]
  exact toNat_append_eq_add (0#1 ++ exponent) mantissa

/-- A pattern is unpacked into the mantissa and the binade that it is made of. -/
theorem unpack_eq
    (formed : IsMantissa mantissa binade)
    (finite : binade ≤ 2045) :
    unpack .binary64 (UInt64.ofNat (binade * 2 ^ 52 + mantissa)).toBitVec =
      .finite .positive mantissa (binade - 1074) formed.positive := by
  obtain ⟨positive, bound, full⟩ := formed
  generalize pattern : binade * 2 ^ 52 + mantissa = bits
  have unsigned : bits < 2 ^ 63 := by omega
  have exponentBits := toNat_unpackExponent unsigned
  have mantissaBits := toNat_unpackMantissa bits
  have sign : Sign.ofBitVec (@unpackSign .binary64 (UInt64.ofNat bits).toBitVec) = .positive := by
    rw [unpackSign_eq unsigned]
    rfl
  unfold unpack
  generalize @unpackExponent .binary64 (UInt64.ofNat bits).toBitVec = exponent at *
  have notInfinite : exponent ≠ -1#11 := by
    rintro rfl
    simp at exponentBits
    omega
  dsimp only
  rw [if_neg notInfinite]
  by_cases subnormal : bits < 2 ^ 52
  · obtain rfl : exponent = 0#11 := BitVec.eq_of_toNat_eq (by rw [exponentBits]; simp; omega)
    have nonzero : @unpackMantissa .binary64 (UInt64.ofNat bits).toBitVec ≠ 0#52 := by
      intro zero
      rw [zero] at mantissaBits
      simp at mantissaBits
      omega
    rw [if_pos rfl, dif_neg nonzero, UnpackedFloat.finite.injEq]
    refine ⟨sign, by omega, ?_⟩
    change ((0 : Nat) : Int) - (1023 + 52) + 1 = binade - 1074
    omega
  · have normal : exponent ≠ 0#11 := by
      rintro rfl
      simp at exponentBits
      omega
    rw [if_neg normal, UnpackedFloat.finite.injEq]
    refine ⟨sign, ?_, ?_⟩
    · -- The leading bit of the mantissa is not written.
      rw [toNat_append_eq_add, mantissaBits, BitVec.toNat_one (by decide), Nat.one_mul]
      change 2 ^ 52 + bits % 2 ^ 52 = mantissa
      omega
    · change (exponent.toNat : Int) - (1023 + 52) = binade - 1074
      omega

/-- A mantissa and a binade are packed into the pattern that is made of them. -/
theorem pack_eq
    (formed : IsMantissa mantissa binade)
    (finite : binade ≤ 2045) :
    pack .binary64 (.finite .positive mantissa (binade - 1074) formed.positive) =
      (UInt64.ofNat (binade * 2 ^ 52 + mantissa)).toBitVec := by
  obtain ⟨positive, bound, full⟩ := formed
  apply BitVec.eq_of_toNat_eq
  have pattern : (UInt64.ofNat (binade * 2 ^ 52 + mantissa)).toBitVec.toNat =
      binade * 2 ^ 52 + mantissa := by
    rw [UInt64.toNat_toBitVec, UInt64.toNat_ofNat', Nat.mod_eq_of_lt (by omega)]
  have biased : ((binade : Int) - 1074 + 1023 + 52).toNat = binade + 1 := by omega
  rw [pattern]
  unfold pack
  change (if 2048 ≤ ((binade : Int) - 1074 + 1023 + 52).toNat + 1 then _
    else if mantissa.log2 + 1 = 53 then
      packComponents .binary64 .positive
        (BitVec.ofNat 11 ((binade : Int) - 1074 + 1023 + 52).toNat) (BitVec.ofNat 52 mantissa)
    else packComponents .binary64 .positive 0#11 (BitVec.ofNat 52 mantissa)).toNat = _
  rw [biased, if_neg (by omega)]
  by_cases leading : 2 ^ 52 ≤ mantissa
  · have length : mantissa.log2 = 52 := (Nat.log2_eq_iff (by omega)).mpr ⟨leading, bound⟩
    rw [if_pos (by omega), toNat_packComponents, BitVec.toNat_ofNat, BitVec.toNat_ofNat]
    omega
  · have length : mantissa.log2 < 52 := (Nat.log2_lt (by omega)).mpr (by omega)
    rw [if_neg (by omega), toNat_packComponents, BitVec.toNat_ofNat, BitVec.toNat_ofNat]
    omega

/-- A number of a binade and a mantissa in it are read as their double. -/
theorem unpack_ofPattern
    (formed : IsMantissa mantissa binade)
    (finite : binade ≤ 2045) :
    (ofPattern (binade * 2 ^ 52 + mantissa)).toModel.unpack =
      .finite .positive mantissa (binade - 1074) formed.positive := by
  have packed : (ofPattern (binade * 2 ^ 52 + mantissa)).toModel.unpack =
      unpack .binary64 (pack .binary64
        (unpack .binary64 (UInt64.ofNat (binade * 2 ^ 52 + mantissa)).toBitVec)) := rfl
  rw [packed, unpack_eq formed finite, pack_eq formed finite, unpack_eq formed finite]

/-- Infinity is no finite double. -/
theorem isFinite_ofPattern_infinityBits : (ofPattern infinityBits).isFinite = false := by
  decide +kernel

theorem nearestBits_le (num den : Nat) : nearestBits num den ≤ infinityBits :=
  Nat.min_le_right _ _

/-- A pattern below that of infinity is zero or that of a double in a binade. -/
theorem exists_mantissa (positive : 0 < bits) (bound : bits < infinityBits) :
    ∃ binade mantissa, IsMantissa mantissa binade ∧ binade ≤ 2045 ∧
      bits = binade * 2 ^ 52 + mantissa := by
  have limit : infinityBits = 2047 * 2 ^ 52 := by rw [infinityBits, Nat.shiftLeft_eq]
  by_cases subnormal : bits < 2 ^ 52
  · exact ⟨0, bits, ⟨positive, by omega, by simp⟩, by omega, by omega⟩
  · exact ⟨bits / 2 ^ 52 - 1, bits % 2 ^ 52 + 2 ^ 52, ⟨by omega, by omega, by omega⟩, by omega,
      by omega⟩

end Decimal
end Scripting
