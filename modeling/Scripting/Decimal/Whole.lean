/-!
# The whole part of a double

The whole part of a number, as an integer of 64 bits: what lies beyond the ends of
their range becomes the nearer end, and what is not a number becomes zero.
-/

namespace Scripting
namespace Decimal

open Float.Model (UnpackedFloat)

/-- The least integer of 64 bits. -/
def leastWhole : Int := -9223372036854775808

/-- The greatest integer of 64 bits. -/
def greatestWhole : Int := 9223372036854775807

/-- The whole part of `mantissa * 2 ^ exponent`. -/
def wholeMagnitude (mantissa : Nat) (exponent : Int) : Nat :=
  if 0 ≤ exponent then mantissa <<< exponent.toNat else mantissa >>> (-exponent).toNat

/-- An integer with the sign of a double. -/
def withSign (sign : UnpackedFloat.Sign) (magnitude : Nat) : Int :=
  match sign with
  | .positive => magnitude
  | .negative => -magnitude

/-- The whole part of a double, without its fraction. -/
def wholePart (number : Float) : Int :=
  match number.toModel.unpack with
  | .notANumber => 0
  | .zero _ => 0
  | .infinity .positive => greatestWhole
  | .infinity .negative => leastWhole
  | .finite sign mantissa exponent _ =>
      max leastWhole (min greatestWhole (withSign sign (wholeMagnitude mantissa exponent)))

end Decimal
end Scripting
