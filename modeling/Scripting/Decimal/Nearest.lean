/-!
# The double nearest to a decimal number

A quotient of two natural numbers is rounded to the nearest double in exact
arithmetic, a tie going to the even mantissa.  All doubles are multiples of
`2 ^ -1074`, so the quotient is first counted in these smallest units; a number
of more than 53 bits is then counted in the units of its own binade.  The bit
pattern of the result is the binade's number, shifted past the mantissa, plus
the rounded count: a count that rounds up to the next power of two carries into
the exponent by itself.
-/

namespace Scripting
namespace Decimal

/-- A quotient rounded to the nearest natural number, a tie to the even one. -/
def roundQuotient (num den : Nat) : Nat :=
  let floor := num / den
  let rest := num % den
  if den < 2 * rest ∨ (den = 2 * rest ∧ floor % 2 = 1) then floor + 1 else floor

/-- The bit pattern of positive infinity, one more than that of the greatest
finite double. -/
def infinityBits : Nat := 2047 <<< 52

/-- The bit pattern of the double nearest to `num / den`. -/
def nearestBits (num den : Nat) : Nat :=
  let units := num <<< 1074
  let binade := (units / den).log2 - 52
  min ((binade <<< 52) + roundQuotient units (den <<< binade)) infinityBits

/-- The double nearest to `num / den`; from half a unit above the greatest finite
double on, infinity. -/
def nearest (num den : Nat) : Float :=
  Float.ofBits (UInt64.ofNat (nearestBits num den))

/-- The number that a list of decimal digits spells. -/
def valueOfDigits (digits : List Char) : Nat :=
  digits.foldl (fun value digit => value * 10 + (digit.toNat - '0'.toNat)) 0

/-- The double nearest to the decimal number with these digits before and after
the point. -/
def ofDigits (whole fraction : List Char) : Float :=
  nearest (valueOfDigits (whole ++ fraction)) (Nat.pow 10 fraction.length)

end Decimal
end Scripting
