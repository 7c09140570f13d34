/-!
# The shortest decimal text of a double

A finite double `m * 2 ^ e` stands for all reals that round to it: from half a
unit below to half a unit above, the ends included exactly when `m` is even.
Below a power of two the next double is only half as far away, and so is the
lower end.  The text shows the multiple of the greatest power of ten that lies
in this interval; of two such neighbours the nearer, and the greater when both
are equally near.  It is written positionally whatever its size, without a
point when it is whole.

Everything is exact arithmetic on natural numbers: the interval is counted in
quarters of the double's unit.
-/

namespace Scripting
namespace Decimal

open Float.Model (UnpackedFloat)

/-- A positive number `digits * 10 ^ power`. -/
structure Scaled where
  digits : Nat
  power : Int

/-- The reals that round to one double, in quarters of the unit `2 ^ exponent`. -/
structure Interval where
  lower : Nat
  middle : Nat
  upper : Nat
  /-- Whether the two ends round to the double as well. -/
  closed : Bool
  /-- The exponent of the double, of which four quarters make one unit. -/
  exponent : Int

namespace Interval

/-- The interval of the double `mantissa * 2 ^ exponent`. -/
def around (mantissa : Nat) (exponent : Int) : Interval where
  lower :=
    if mantissa = 1 <<< 52 ∧ -1074 < exponent then 4 * mantissa - 1 else 4 * mantissa - 2
  middle := 4 * mantissa
  upper := 4 * mantissa + 2
  closed := mantissa % 2 == 0
  exponent := exponent

/-- The two factors that compare a count of quarters with a multiple of
`10 ^ power`: `quarters * fst` against `multiple * snd`. -/
def scale (interval : Interval) (power : Int) : Nat × Nat :=
  let twos := interval.exponent - 2
  (Nat.pow 10 (-power).toNat <<< twos.toNat, Nat.pow 10 power.toNat <<< (-twos).toNat)

/-- Whether `multiple * 10 ^ power` lies in the interval, where `fst` and `snd` are
the factors of `scale`. -/
def holds (interval : Interval) (factors : Nat × Nat) (multiple : Nat) : Bool :=
  let point := multiple * factors.2
  let lower := interval.lower * factors.1
  let upper := interval.upper * factors.1
  if interval.closed then lower ≤ point && point ≤ upper
  else lower < point && point < upper

/-- The multiple of `10 ^ power` in the interval that is nearest to its middle, if
there is one. -/
def multiple? (interval : Interval) (power : Int) : Option Scaled :=
  let factors := interval.scale power
  let middle := interval.middle * factors.1
  let below := middle / factors.2
  let above := below + 1
  let nearerAbove := factors.2 ≤ 2 * (middle - below * factors.2)
  match interval.holds factors below, interval.holds factors above with
  | true, true => some { digits := if nearerAbove then above else below, power }
  | true, false => some { digits := below, power }
  | false, true => some { digits := above, power }
  | false, false => none

/-- A power of ten that no number of the interval reaches. -/
def topPower (interval : Interval) : Int :=
  let bits : Int := interval.middle.log2 + interval.exponent
  (bits * 30103).fdiv 100000 + 1

/-- The multiple of the greatest power of ten in the interval. Seventeen digits
tell all doubles apart, so one of the first twenty powers has one. -/
def shortest (interval : Interval) : Scaled :=
  let powers := (List.range 20).map fun (step : Nat) => interval.topPower - step
  (powers.findSome? interval.multiple?).getD { digits := 0, power := 0 }

end Interval

/-- The positional text of a number: all its digits, with a point only before a
fraction. -/
def Scaled.text (number : Scaled) : String :=
  let digits := Nat.toDigits 10 number.digits
  if 0 ≤ number.power then
    String.ofList (digits ++ List.replicate number.power.toNat '0')
  else
    let places := (-number.power).toNat
    let padded := List.replicate (places + 1 - digits.length) '0' ++ digits
    let whole := padded.length - places
    String.ofList (padded.take whole ++ '.' :: padded.drop whole)

/-- The mark in front of a negative number. -/
def signText : UnpackedFloat.Sign → String
  | .positive => ""
  | .negative => "-"

/-- The text of a double: the fewest digits that read back as it, never with an
exponent, and words for what is not a finite number. -/
def text (number : Float) : String :=
  match number.toModel.unpack with
  | .notANumber => "NaN"
  | .infinity sign => signText sign ++ "inf"
  | .zero sign => signText sign ++ "0"
  | .finite sign mantissa exponent _ =>
      signText sign ++ (Interval.around mantissa exponent).shortest.text

end Decimal
end Scripting
