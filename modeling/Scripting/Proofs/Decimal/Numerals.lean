import Scripting.Proofs.Decimal.Bits
import Scripting.Proofs.Decimal.Shortest

/-!
# Numerals

The text of a finite double that is not negative is a numeral: digits, and a point only before
more digits, of which the last is no zero.  Read as a numeral, it is the double again, so
different doubles have different texts.

Main statements: `exists_numeral_text`, `fraction_not_padded`, `text_injective`.
-/

namespace Scripting
namespace Decimal

/-! ## Digits -/

theorem valueOfDigits_eq (digits : List Char) :
    valueOfDigits digits = Nat.ofDigitChars 10 digits 0 := by
  simp only [valueOfDigits, Nat.ofDigitChars, Nat.mul_comm 10]

/-- All characters are digits. -/
def AreDigits (text : List Char) : Prop :=
  ∀ c ∈ text, c.isDigit = true

theorem areDigits_append {text others : List Char} :
    AreDigits (text ++ others) ↔ AreDigits text ∧ AreDigits others := by
  simp [AreDigits, or_imp, forall_and]

theorem areDigits_zeros (count : Nat) : AreDigits (List.replicate count '0') := by
  intro c member
  rw [List.eq_of_mem_replicate member]
  rfl

theorem areDigits_toDigits (value : Nat) : AreDigits (Nat.toDigits 10 value) :=
  fun _ member => Nat.isDigit_of_mem_toDigits (by decide) (by decide) member

/-- The digits of a number, with zeros in front if there would be fewer than `least`. -/
def padded (least value : Nat) : List Char :=
  List.replicate (least - (Nat.toDigits 10 value).length) '0' ++ Nat.toDigits 10 value

theorem areDigits_padded (least value : Nat) : AreDigits (padded least value) :=
  areDigits_append.mpr ⟨areDigits_zeros _, areDigits_toDigits _⟩

theorem le_length_padded (least value : Nat) : least ≤ (padded least value).length := by
  simp only [padded, List.length_append, List.length_replicate]
  omega

theorem valueOfDigits_padded (least value : Nat) : valueOfDigits (padded least value) = value := by
  rw [valueOfDigits_eq, padded, Nat.ofDigitChars_append, Nat.ofDigitChars_replicate_zero,
    Nat.mul_zero, Nat.ofDigitChars_ten_toDigits]

theorem valueOfDigits_append_zeros (value count : Nat) :
    valueOfDigits (Nat.toDigits 10 value ++ List.replicate count '0') = value * 10 ^ count := by
  rw [valueOfDigits_eq, Nat.ofDigitChars_append, Nat.ofDigitChars_replicate_zero,
    Nat.ofDigitChars_ten_toDigits, Nat.mul_comm]

/-! ## Numerals -/

/-- A fraction with the point before it, which stands only before digits. -/
def pointed (fraction : List Char) : List Char :=
  if fraction = [] then [] else '.' :: fraction

/-- A text is a numeral with the given digits before and after the point. -/
structure IsNumeral (text whole fraction : List Char) : Prop where
  spelled : text = whole ++ pointed fraction
  nonempty : whole ≠ []
  whole : AreDigits whole
  fraction : AreDigits fraction

/-- A numeral is split where its first digits end. -/
theorem IsNumeral.span_eq
    {text whole fraction : List Char}
    (isNumeral : IsNumeral text whole fraction) :
    text.takeWhile (·.isDigit) = whole ∧ (text.dropWhile (·.isDigit)).tail = fraction := by
  rw [isNumeral.spelled, List.takeWhile_append_of_pos isNumeral.whole,
    List.dropWhile_append_of_pos isNumeral.whole, pointed]
  split
  next isEmpty => simp [isEmpty]
  next => simp [List.takeWhile, List.dropWhile]

/-- A numeral is one in one way. -/
theorem IsNumeral.unique
    {text whole fraction otherWhole otherFraction : List Char}
    (isNumeral : IsNumeral text whole fraction)
    (other : IsNumeral text otherWhole otherFraction) :
    whole = otherWhole ∧ fraction = otherFraction :=
  ⟨isNumeral.span_eq.1.symm.trans other.span_eq.1, isNumeral.span_eq.2.symm.trans other.span_eq.2⟩

/-- The text of a whole number. -/
theorem Scaled.toList_text_of_nonneg {number : Scaled} (integral : 0 ≤ number.power) :
    number.text.toList =
      Nat.toDigits 10 number.digits ++ List.replicate number.power.toNat '0' := by
  unfold Scaled.text
  rw [if_pos integral, String.toList_ofList]

/-- The text of a number with places behind the point. -/
theorem Scaled.toList_text_of_neg {number : Scaled} (fractional : number.power < 0) :
    let places := (-number.power).toNat
    let digits := padded (places + 1) number.digits
    let place := digits.length - places
    number.text.toList = digits.take place ++ '.' :: digits.drop place := by
  intro places digits place
  unfold Scaled.text
  rw [if_neg (not_le.mpr fractional)]
  exact String.toList_ofList

/-- The text of a number is a numeral for it. -/
theorem Scaled.exists_numeral (number : Scaled) :
    ∃ whole fraction, IsNumeral number.text.toList whole fraction ∧
      valueOfDigits (whole ++ fraction) = number.num ∧ 10 ^ fraction.length = number.den := by
  rcases Int.lt_or_le number.power 0 with fractional | integral
  · have spelled := toList_text_of_neg fractional
    dsimp only at spelled
    have areDigits := areDigits_padded ((-number.power).toNat + 1) number.digits
    have long := le_length_padded ((-number.power).toNat + 1) number.digits
    have value := valueOfDigits_padded ((-number.power).toNat + 1) number.digits
    generalize padded ((-number.power).toNat + 1) number.digits = digits at *
    generalize split : digits.length - (-number.power).toNat = place at spelled
    have some : digits.drop place ≠ [] := by
      rw [Ne, List.drop_eq_nil_iff]
      omega
    refine ⟨digits.take place, digits.drop place, ⟨?_, ?_, ?_, ?_⟩, ?_, ?_⟩
    · rw [spelled, pointed, if_neg some]
    · rw [Ne, List.take_eq_nil_iff]
      rintro (none | rfl)
      · omega
      · simp at long
    · exact fun c member => areDigits c (List.mem_of_mem_take member)
    · exact fun c member => areDigits c (List.mem_of_mem_drop member)
    · rw [List.take_append_drop, value, Scaled.num, Int.toNat_of_nonpos (by omega), Nat.pow_zero,
        Nat.mul_one]
    · rw [List.length_drop, Scaled.den]
      congr 1
      omega
  · refine ⟨Nat.toDigits 10 number.digits ++ List.replicate number.power.toNat '0', [],
      ⟨by rw [toList_text_of_nonneg integral]; simp [pointed], by simp, ?_, by simp [AreDigits]⟩,
      ?_, ?_⟩
    · exact areDigits_append.mpr ⟨areDigits_toDigits _, areDigits_zeros _⟩
    · rw [List.append_nil, Scaled.num, valueOfDigits_append_zeros]
    · rw [Scaled.den, Int.toNat_of_nonpos (by omega)]
      rfl

/-- A fraction of the text that ends in a zero is one of digits that end in a zero. -/
theorem Scaled.dvd_digits
    {number : Scaled}
    {whole front : List Char}
    (isNumeral : IsNumeral number.text.toList whole (front ++ ['0'])) :
    10 ∣ number.digits := by
  obtain ⟨ownWhole, ownFraction, own, num, den⟩ := number.exists_numeral
  obtain ⟨rfl, rfl⟩ := own.unique isNumeral
  -- There are places behind the point, so the digits are all there is to the numerator.
  have fractional : (-number.power).toNat ≠ 0 := by
    intro none
    rw [Scaled.den, none, List.length_append, List.length_singleton, Nat.pow_succ] at den
    omega
  have same : number.num = number.digits := by
    rw [Scaled.num, Int.toNat_of_nonpos (by omega), Nat.pow_zero, Nat.mul_one]
  rw [← same, ← num, ← List.append_assoc, valueOfDigits_eq, Nat.ofDigitChars_append]
  exact Dvd.intro _ rfl

/-! ## Texts of doubles -/

/-- A finite double that is not negative. -/
def IsUnsigned (number : Float) : Prop :=
  ∃ bits < infinityBits, number = ofPattern bits

/-- The double that a numeral stands for is finite and not negative, or it is infinity. -/
theorem isUnsigned_ofDigits_or (whole fraction : List Char) :
    IsUnsigned (ofDigits whole fraction) ∨ ofDigits whole fraction = ofPattern infinityBits := by
  obtain below | infinite := Nat.lt_or_eq_of_le (nearestBits_le
    (valueOfDigits (whole ++ fraction)) (Nat.pow 10 fraction.length))
  · exact .inl ⟨_, below, rfl⟩
  · exact .inr (congrArg ofPattern infinite)

/-- The double that a numeral stands for is not negative, if it is finite. -/
theorem isUnsigned_ofDigits
    {whole fraction : List Char}
    (finite : (ofDigits whole fraction).isFinite = true) :
    IsUnsigned (ofDigits whole fraction) := by
  obtain unsigned | infinite := isUnsigned_ofDigits_or whole fraction
  · exact unsigned
  · rw [infinite, isFinite_ofPattern_infinityBits] at finite
    contradiction

theorem IsUnsigned.isFinite {number : Float} (unsigned : IsUnsigned number) :
    number.isFinite = true := by
  obtain ⟨bits, bound, rfl⟩ := unsigned
  rcases Nat.eq_zero_or_pos bits with rfl | positive
  · decide +kernel
  · obtain ⟨binade, mantissa, formed, finite, rfl⟩ := exists_mantissa positive bound
    unfold Float.isFinite Float.Model.isFinite
    rw [unpack_ofPattern formed finite]
    rfl

theorem text_of_unpack
    {number : Float}
    {mantissa : Nat}
    {exponent : Int}
    {positive : 0 < mantissa}
    (unpacked : number.toModel.unpack = .finite .positive mantissa exponent positive) :
    text number = (Interval.around mantissa exponent).shortest.text := by
  unfold text
  rw [unpacked]
  simp only [signText, String.empty_append]

theorem text_zero : text (ofPattern 0) = "0" := by
  decide +kernel

theorem text_infinity : text (ofPattern infinityBits) = "inf" := by
  decide +kernel

/-- The text of a finite double that is not negative is a numeral for the double. -/
theorem exists_numeral_text {number : Float} (unsigned : IsUnsigned number) :
    ∃ whole fraction, IsNumeral (text number).toList whole fraction ∧
      ofDigits whole fraction = number := by
  obtain ⟨bits, bound, rfl⟩ := unsigned
  rcases Nat.eq_zero_or_pos bits with rfl | positive
  · have isNumeral : IsNumeral ['0'] ['0'] [] :=
      ⟨rfl, by simp, areDigits_zeros 1, areDigits_zeros 0⟩
    have bits : nearestBits (valueOfDigits ['0']) (Nat.pow 10 0) = 0 := by decide +kernel
    refine ⟨['0'], [], ?_, congrArg ofPattern bits⟩
    rw [text_zero]
    exact isNumeral
  · obtain ⟨binade, mantissa, formed, finite, rfl⟩ := exists_mantissa positive bound
    obtain ⟨whole, fraction, isNumeral, num, den⟩ :=
      (Interval.ofBinade mantissa binade).shortest.exists_numeral
    refine ⟨whole, fraction, ?_, ?_⟩
    · rw [text_of_unpack (unpack_ofPattern formed finite)]
      exact isNumeral
    · unfold ofDigits nearest
      rw [Nat.pow_eq, num, den, Interval.nearestBits_shortest formed finite]
      rfl

/-- The fraction in the text of a finite double that is not negative does not end in a zero. -/
theorem fraction_not_padded
    {number : Float}
    (unsigned : IsUnsigned number)
    {whole fraction : List Char}
    (isNumeral : IsNumeral (text number).toList whole fraction) :
    fraction.getLast? ≠ some '0' := by
  intro padded
  obtain ⟨front, rfl⟩ := List.getLast?_eq_some_iff.mp padded
  obtain ⟨bits, bound, rfl⟩ := unsigned
  rcases Nat.eq_zero_or_pos bits with rfl | positive
  · rw [text_zero] at isNumeral
    have point := isNumeral.span_eq.2
    simp at point
  · obtain ⟨binade, mantissa, formed, finite, rfl⟩ := exists_mantissa positive bound
    rw [text_of_unpack (unpack_ofPattern formed finite)] at isNumeral
    exact Interval.not_dvd_digits_shortest formed finite (Scaled.dvd_digits isNumeral)

/-- Different finite doubles that are not negative have different texts. -/
theorem text_injective
    {number other : Float}
    (unsigned : IsUnsigned number)
    (otherUnsigned : IsUnsigned other)
    (same : text number = text other) :
    number = other := by
  obtain ⟨whole, fraction, isNumeral, rfl⟩ := exists_numeral_text unsigned
  obtain ⟨otherWhole, otherFraction, otherNumeral, rfl⟩ := exists_numeral_text otherUnsigned
  rw [same] at isNumeral
  obtain ⟨rfl, rfl⟩ := isNumeral.unique otherNumeral
  rfl

end Decimal
end Scripting
