import Mathlib.Data.Rat.Floor
import Scripting.Decimal.Whole

/-!
# The numbers that doubles are

A finite double is a rational number.  Its whole part, toward zero, is the one that
`Decimal.wholePart` computes, within the integers of 64 bits.

Main statement: `wholePart_eq_of_rational?`.
-/

namespace Scripting
namespace Decimal

open Float.Model (UnpackedFloat)

/-- A magnitude with a sign. -/
def signed (sign : UnpackedFloat.Sign) (magnitude : ℚ) : ℚ :=
  match sign with
  | .positive => magnitude
  | .negative => -magnitude

/-- The rational number that a double is, if it is a finite one. -/
def rational? (number : Float) : Option ℚ :=
  match number.toModel.unpack with
  | .finite sign mantissa exponent _ => some (signed sign (mantissa * 2 ^ exponent))
  | .zero _ => some 0
  | .infinity _ => none
  | .notANumber => none

/-- A rational number without its fraction. -/
def truncated (value : ℚ) : ℤ :=
  if 0 ≤ value then ⌊value⌋ else ⌈value⌉

/-- The whole part of a double, which only a finite one has. -/
def whole? (number : Float) : Option ℤ :=
  (rational? number).map truncated

theorem truncated_neg {value : ℚ} (nonneg : 0 ≤ value) : truncated (-value) = -truncated value := by
  unfold truncated
  rw [if_pos nonneg]
  split
  next both =>
      obtain rfl : value = 0 := le_antisymm (neg_nonneg.mp both) nonneg
      simp
  · exact Int.ceil_neg

theorem wholeMagnitude_eq (mantissa : Nat) (exponent : Int) :
    (wholeMagnitude mantissa exponent : ℤ) = ⌊(mantissa * 2 ^ exponent : ℚ)⌋ := by
  unfold wholeMagnitude
  split
  next whole =>
      obtain ⟨places, rfl⟩ := Int.eq_ofNat_of_zero_le whole
      have same : (mantissa * 2 ^ (places : ℤ) : ℚ) = ((mantissa * 2 ^ places : ℕ) : ℚ) := by
        push_cast
        rw [zpow_natCast]
      rw [same, Int.floor_natCast, Int.toNat_natCast, Nat.shiftLeft_eq]
  next fraction =>
      obtain ⟨places, rfl⟩ : ∃ places : ℕ, exponent = -(places : ℤ) :=
        ⟨(-exponent).toNat, by omega⟩
      have same : (mantissa * 2 ^ (-(places : ℤ)) : ℚ) =
          (mantissa : ℚ) / ((2 ^ places : ℕ) : ℚ) := by
        rw [zpow_neg, zpow_natCast, div_eq_mul_inv]
        push_cast
        rfl
      rw [same, Rat.floor_natCast_div_natCast, neg_neg, Int.toNat_natCast,
        Nat.shiftRight_eq_div_pow]
      rfl

theorem withSign_eq (sign : UnpackedFloat.Sign) (mantissa : Nat) (exponent : Int) :
    withSign sign (wholeMagnitude mantissa exponent) =
      truncated (signed sign (mantissa * 2 ^ exponent)) := by
  have nonneg : (0 : ℚ) ≤ mantissa * 2 ^ exponent :=
    mul_nonneg (Nat.cast_nonneg mantissa) (zpow_nonneg zero_le_two exponent)
  have magnitude : (wholeMagnitude mantissa exponent : ℤ) =
      truncated (mantissa * 2 ^ exponent) := by
    rw [wholeMagnitude_eq, truncated, if_pos nonneg]
  cases sign with
  | positive => exact magnitude
  | negative => exact (congrArg Neg.neg magnitude).trans (truncated_neg nonneg).symm

/-- The whole part of a finite double is that of the number that it is, or the nearer end of
the integers of 64 bits. -/
theorem wholePart_eq_of_rational?
    {number : Float}
    {value : ℚ}
    (isRational : rational? number = some value) :
    wholePart number = max leastWhole (min greatestWhole (truncated value)) := by
  unfold rational? at isRational
  unfold wholePart
  cases unpacked : number.toModel.unpack with
  | finite sign mantissa exponent positive =>
      rw [unpacked] at isRational
      obtain rfl := Option.some.inj isRational
      exact congrArg (max leastWhole <| min greatestWhole ·) (withSign_eq sign mantissa exponent)
  | zero sign =>
      rw [unpacked] at isRational
      obtain rfl := Option.some.inj isRational
      simp [truncated, leastWhole, greatestWhole]
  | infinity sign =>
      rw [unpacked] at isRational
      contradiction
  | notANumber =>
      rw [unpacked] at isRational
      contradiction

/-- The whole part of a double that is neither finite nor something else than a number is an end
of the integers of 64 bits. -/
theorem wholePart_of_rational?_eq_none
    {number : Float}
    (isNumber : number.isNaN = false)
    (infinite : rational? number = none) :
    wholePart number = greatestWhole ∨ wholePart number = leastWhole := by
  unfold Float.isNaN Float.Model.isNaN at isNumber
  unfold rational? at infinite
  unfold wholePart
  cases unpacked : number.toModel.unpack with
  | infinity sign =>
      cases sign with
      | positive => exact .inl rfl
      | negative => exact .inr rfl
  | notANumber =>
      rw [unpacked] at isNumber
      contradiction
  | finite sign mantissa exponent positive =>
      rw [unpacked] at infinite
      contradiction
  | zero sign =>
      rw [unpacked] at infinite
      contradiction

theorem unpack_of_isNaN
    {number : Float}
    (isNone : number.isNaN = true) :
    number.toModel.unpack = .notANumber := by
  unfold Float.isNaN Float.Model.isNaN at isNone
  cases unpacked : number.toModel.unpack with
  | notANumber => rfl
  | _ =>
      rw [unpacked] at isNone
      contradiction

theorem wholePart_of_isNaN {number : Float} (isNone : number.isNaN = true) :
    wholePart number = 0 := by
  rw [wholePart, unpack_of_isNaN isNone]

theorem whole?_of_isNaN {number : Float} (isNone : number.isNaN = true) :
    whole? number = none := by
  rw [whole?, rational?, unpack_of_isNaN isNone]
  rfl

end Decimal
end Scripting
