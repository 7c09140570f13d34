import Mathlib.Tactic.Ring
import Scripting.Decimal.Shortest
import Scripting.Proofs.Decimal.Rounding

/-!
# The shortest number in an interval

The number that `Interval.shortest` gives for a double is in the interval around it, so it is
rounded to this double.  One is always found: at the last of the powers of ten that are tried,
the multiples lie closer together than the ends of the interval.  No multiple of a greater
power of ten is in the interval, so the digits do not end in a zero.

Main statements: `Interval.nearestBits_shortest`, `Interval.not_dvd_digits_shortest`.
-/

namespace Scripting
namespace Decimal

variable {mantissa binade : Nat}

namespace Scaled

/-- The numerator of a number, whose denominator is a power of ten. -/
def num (number : Scaled) : Nat :=
  number.digits * 10 ^ number.power.toNat

/-- The denominator of a number. -/
def den (number : Scaled) : Nat :=
  10 ^ (-number.power).toNat

theorem den_pos (number : Scaled) : 0 < number.den :=
  Nat.pow_pos (by decide)

end Scaled

namespace Interval

/-- The interval of the double with a mantissa in a binade. -/
def ofBinade (mantissa binade : Nat) : Interval :=
  around mantissa (binade - 1074)

theorem holds_iff (interval : Interval) (factors : Nat × Nat) (multiple : Nat) :
    interval.holds factors multiple = true ↔
      if interval.closed then
        interval.lower * factors.1 ≤ multiple * factors.2 ∧
          multiple * factors.2 ≤ interval.upper * factors.1
      else
        interval.lower * factors.1 < multiple * factors.2 ∧
          multiple * factors.2 < interval.upper * factors.1 := by
  unfold holds
  split <;> simp [*]

/-- What is strictly between the ends is in the interval. -/
theorem holds_of_lt
    {interval : Interval}
    {factors : Nat × Nat}
    {multiple : Nat}
    (lower : interval.lower * factors.1 < multiple * factors.2)
    (upper : multiple * factors.2 < interval.upper * factors.1) :
    interval.holds factors multiple = true := by
  rw [holds_iff]
  split
  · exact ⟨Nat.le_of_lt lower, Nat.le_of_lt upper⟩
  · exact ⟨lower, upper⟩

@[simp] theorem lower_ofBinade (mantissa binade : Nat) :
    (ofBinade mantissa binade).lower =
      if mantissa = 2 ^ 52 ∧ 0 < binade then 4 * mantissa - 1 else 4 * mantissa - 2 := by
  have above : -1074 < (binade : Int) - 1074 ↔ 0 < binade := by omega
  simp [ofBinade, around, above]

@[simp] theorem upper_ofBinade (mantissa binade : Nat) :
    (ofBinade mantissa binade).upper = 4 * mantissa + 2 := rfl

@[simp] theorem middle_ofBinade (mantissa binade : Nat) :
    (ofBinade mantissa binade).middle = 4 * mantissa := rfl

theorem four_mul_shiftLeft (count places : Nat) :
    4 * count <<< places = count * 2 ^ (places + 2) := by
  rw [Nat.shiftLeft_eq, Nat.pow_add]
  ring

/-- The factors of the comparison, in units of `2 ^ -1076`. -/
theorem scale_ofBinade (mantissa binade : Nat) (power : Int) :
    ∃ places,
      ((ofBinade mantissa binade).scale power).1 * 2 ^ places =
          10 ^ (-power).toNat * 2 ^ binade ∧
        ((ofBinade mantissa binade).scale power).2 * 2 ^ places =
          10 ^ power.toNat * 2 ^ 1076 := by
  have exponent : (ofBinade mantissa binade).exponent - 2 = (binade : Int) - 1076 := by
    change (binade : Int) - 1074 - 2 = _
    omega
  refine ⟨1076 - (1076 - binade), ?_, ?_⟩
  all_goals
    simp only [scale, exponent, Nat.shiftLeft_eq, Nat.pow_eq]
    rw [Nat.mul_assoc, ← Nat.pow_add]
    congr 2
    omega

theorem scale_pos (interval : Interval) (power : Int) : 0 < (interval.scale power).2 := by
  unfold scale
  dsimp only
  rw [Nat.shiftLeft_eq]
  exact Nat.mul_pos (Nat.pow_pos (by decide)) (Nat.two_pow_pos _)

theorem scale_fst_pos (interval : Interval) (power : Int) : 0 < (interval.scale power).1 := by
  unfold scale
  dsimp only
  rw [Nat.shiftLeft_eq]
  exact Nat.mul_pos (Nat.pow_pos (by decide)) (Nat.two_pow_pos _)

/-- What is in the interval of a double is near to it. -/
theorem isNear_of_holds
    {number : Scaled}
    (holds : (ofBinade mantissa binade).holds ((ofBinade mantissa binade).scale number.power)
      number.digits = true) :
    IsNear mantissa binade (number.num <<< 1074) number.den := by
  obtain ⟨places, first, second⟩ := scale_ofBinade mantissa binade number.power
  generalize (ofBinade mantissa binade).scale number.power = factors at *
  have counted (quarters : Nat) :
      quarters * (number.den * 2 ^ binade) = quarters * factors.1 * 2 ^ places := by
    rw [Nat.mul_assoc, first, Scaled.den]
  have point : 4 * number.num <<< 1074 = number.digits * factors.2 * 2 ^ places := by
    rw [Nat.mul_assoc, second, four_mul_shiftLeft, Scaled.num, Nat.mul_assoc]
  have positive : 0 < 2 ^ places := Nat.two_pow_pos places
  rw [holds_iff, lower_ofBinade, upper_ofBinade] at holds
  split at holds
  next closed =>
      have even : mantissa % 2 = 0 := by simpa [ofBinade, around] using closed
      refine ⟨?_, ?_, fun odd => by omega⟩
      · rw [counted, point]
        exact Nat.mul_le_mul_right _ holds.1
      · rw [counted, point]
        exact Nat.mul_le_mul_right _ holds.2
  next opened =>
      have odd : mantissa % 2 = 1 := by simpa [ofBinade, around] using opened
      rw [if_neg (by omega)] at holds
      have strict :
          (4 * mantissa - 2) * (number.den * 2 ^ binade) < 4 * number.num <<< 1074 ∧
            4 * number.num <<< 1074 < (4 * mantissa + 2) * (number.den * 2 ^ binade) := by
        rw [counted, counted, point]
        exact ⟨Nat.mul_lt_mul_of_pos_right holds.1 positive,
          Nat.mul_lt_mul_of_pos_right holds.2 positive⟩
      refine ⟨?_, Nat.le_of_lt strict.2, fun _ => strict⟩
      rw [if_neg (by omega)]
      exact Nat.le_of_lt strict.1

/-- The multiple that is found at a power of ten is in the interval. -/
theorem holds_of_multiple?
    {interval : Interval}
    {power : Int}
    {number : Scaled}
    (found : interval.multiple? power = some number) :
    number.power = power ∧ interval.holds (interval.scale power) number.digits = true := by
  unfold multiple? at found
  dsimp only at found
  split at found
  next below above =>
      obtain rfl := Option.some.inj found
      refine ⟨rfl, ?_⟩
      dsimp only
      split
      · exact above
      · exact below
  next below _ =>
      obtain rfl := Option.some.inj found
      exact ⟨rfl, below⟩
  next _ above =>
      obtain rfl := Option.some.inj found
      exact ⟨rfl, above⟩
  next => contradiction

/-- Where the multiples are closer together than the middle of the interval and its upper end,
one of them is in the interval. -/
theorem isSome_multiple?
    {power : Int}
    (fine : ((ofBinade mantissa binade).scale power).2 <
      2 * ((ofBinade mantissa binade).scale power).1) :
    ((ofBinade mantissa binade).multiple? power).isSome = true := by
  have nonzero := scale_pos (ofBinade mantissa binade) power
  unfold multiple?
  dsimp only
  generalize (ofBinade mantissa binade).scale power = factors at *
  have held : (ofBinade mantissa binade).holds factors
      ((ofBinade mantissa binade).middle * factors.1 / factors.2 + 1) = true := by
    have beyond := Nat.lt_div_mul_add (a := 4 * mantissa * factors.1) nonzero
    have close := Nat.div_mul_le_self (4 * mantissa * factors.1) factors.2
    have under : (if mantissa = 2 ^ 52 ∧ 0 < binade then 4 * mantissa - 1 else 4 * mantissa - 2) *
        factors.1 ≤ 4 * mantissa * factors.1 := by
      refine Nat.mul_le_mul_right _ ?_
      split <;> omega
    refine holds_of_lt ?_ ?_
    · rw [lower_ofBinade, middle_ofBinade, Nat.add_one_mul (4 * mantissa * factors.1 / factors.2)]
      exact Nat.lt_of_le_of_lt under beyond
    · rw [upper_ofBinade, middle_ofBinade, Nat.add_one_mul (4 * mantissa * factors.1 / factors.2),
        Nat.add_mul]
      omega
  rw [held]
  split <;> first | rfl | contradiction

/-- Ten to the third is less than two to the tenth. -/
theorem pow_ten_lt_pow_two {tens twos : Nat} (fewer : 10 * tens < 3 * twos) :
    10 ^ tens < 2 ^ twos := by
  refine lt_of_pow_lt_pow_left₀ 3 (Nat.zero_le _) ?_
  calc (10 ^ tens) ^ 3 = (10 ^ 3) ^ tens := Nat.pow_right_comm ..
    _ ≤ (2 ^ 10) ^ tens := Nat.pow_le_pow_left (by decide) tens
    _ = 2 ^ (10 * tens) := (Nat.pow_mul ..).symm
    _ < 2 ^ (3 * twos) := Nat.pow_lt_pow_right (by decide) fewer
    _ = (2 ^ twos) ^ 3 := by rw [Nat.mul_comm, Nat.pow_mul]

/-- Two to the fifty-third is less than ten to the sixteenth. -/
theorem pow_two_lt_pow_ten {tens twos : Nat} (positive : 0 < tens) (fewer : 16 * twos ≤ 53 * tens) :
    2 ^ twos < 10 ^ tens := by
  refine lt_of_pow_lt_pow_left₀ 16 (Nat.zero_le _) ?_
  calc (2 ^ twos) ^ 16 = 2 ^ (16 * twos) := by rw [← Nat.pow_mul, Nat.mul_comm]
    _ ≤ 2 ^ (53 * tens) := Nat.pow_le_pow_right (by decide) fewer
    _ = (2 ^ 53) ^ tens := Nat.pow_mul ..
    _ < (10 ^ 16) ^ tens := Nat.pow_lt_pow_left (by decide) positive.ne'
    _ = (10 ^ tens) ^ 16 := Nat.pow_right_comm ..

theorem log2_lt (formed : IsMantissa mantissa binade) : (4 * mantissa).log2 < 55 := by
  have := formed.lt
  rw [Nat.log2_lt (by have := formed.positive; omega)]
  omega

/-- The greatest power of ten that is tried is at most one above the logarithm of the double. -/
theorem topPower_le (formed : IsMantissa mantissa binade) :
    100000 * ((ofBinade mantissa binade).topPower - 1) ≤ 30103 * ((binade : Int) - 1020) := by
  have short := log2_lt formed
  unfold topPower
  dsimp only
  rw [Int.fdiv_eq_ediv_of_nonneg _ (by decide)]
  simp only [ofBinade, around]
  omega

/-- The multiples of the last power of ten that is tried are closer together than the middle of
the interval and its upper end. -/
theorem scale_lt
    {power : Int}
    (formed : IsMantissa mantissa binade)
    (finite : binade ≤ 2045)
    (last : power = (ofBinade mantissa binade).topPower - 19) :
    ((ofBinade mantissa binade).scale power).2 <
      2 * ((ofBinade mantissa binade).scale power).1 := by
  have bound := topPower_le formed
  obtain ⟨places, first, second⟩ := scale_ofBinade mantissa binade power
  rw [← Nat.mul_lt_mul_right (Nat.two_pow_pos places), second, Nat.mul_assoc, first,
    Nat.mul_left_comm, show 2 * 2 ^ binade = 2 ^ binade.succ from (Nat.pow_succ' ..).symm]
  rcases lt_or_ge power 0 with negative | nonneg
  · rw [Int.toNat_of_nonpos negative.le, Nat.pow_zero, Nat.one_mul]
    have least : 1076 ≤ 1075 - binade + binade.succ := by omega
    refine lt_of_le_of_lt (pow_le_pow_right₀ one_le_two least) ?_
    rw [pow_add]
    exact Nat.mul_lt_mul_of_pos_right (pow_two_lt_pow_ten (by omega) (by omega)) (Nat.two_pow_pos _)
  · rw [Int.toNat_of_nonpos (neg_nonpos.mpr nonneg), Nat.pow_zero, Nat.one_mul,
      show binade.succ = (binade - 1075) + 1076 by omega, pow_add]
    exact Nat.mul_lt_mul_of_pos_right (pow_ten_lt_pow_two (by omega)) (pow_pos two_pos _)

/-- The number that is found is a multiple of the greatest power of ten that is tried and has
one in the interval. -/
theorem exists_multiple?_shortest
    (formed : IsMantissa mantissa binade)
    (finite : binade ≤ 2045) :
    ∃ step : Nat,
      (ofBinade mantissa binade).multiple? ((ofBinade mantissa binade).topPower - step) =
          some (ofBinade mantissa binade).shortest ∧
        ∀ earlier < step,
          (ofBinade mantissa binade).multiple? ((ofBinade mantissa binade).topPower - earlier) =
            none := by
  unfold shortest
  dsimp only
  rw [List.findSome?_map, List.range_eq_range']
  cases result : (List.range' 0 20).findSome?
      ((ofBinade mantissa binade).multiple? ∘
        fun step : Nat => (ofBinade mantissa binade).topPower - step) with
  | some number =>
      obtain ⟨before, step, after, range, found, missed⟩ := List.findSome?_eq_some_iff.mp result
      obtain ⟨count, -, rfl, rest⟩ := List.range'_eq_append_iff.mp range
      obtain ⟨rfl, -⟩ := List.range'_eq_cons_iff.mp rest.symm
      refine ⟨_, found, fun earlier less => missed earlier ?_⟩
      rw [List.mem_range'_1]
      omega
  | none =>
      have missed : (ofBinade mantissa binade).multiple?
          ((ofBinade mantissa binade).topPower - (19 : Nat)) = none :=
        List.findSome?_eq_none_iff.mp result 19 (by decide)
      have found := isSome_multiple? (scale_lt formed finite rfl)
      rw [Nat.cast_ofNat] at missed
      rw [missed] at found
      contradiction

/-- The number that is found for a double is in its interval. -/
theorem holds_shortest
    (formed : IsMantissa mantissa binade)
    (finite : binade ≤ 2045) :
    (ofBinade mantissa binade).holds
      ((ofBinade mantissa binade).scale (ofBinade mantissa binade).shortest.power)
      (ofBinade mantissa binade).shortest.digits = true := by
  obtain ⟨step, found, -⟩ := exists_multiple?_shortest formed finite
  obtain ⟨power, held⟩ := holds_of_multiple? found
  rw [power]
  exact held

/-- The number that is found for a double is rounded to it. -/
theorem nearestBits_shortest
    (formed : IsMantissa mantissa binade)
    (finite : binade ≤ 2045) :
    nearestBits (ofBinade mantissa binade).shortest.num (ofBinade mantissa binade).shortest.den =
      binade * 2 ^ 52 + mantissa :=
  (isNear_of_holds (holds_shortest formed finite)).nearestBits_eq (Scaled.den_pos _) formed finite

/-! ## Greater powers of ten -/

theorem lower_pos (formed : IsMantissa mantissa binade) : 0 < (ofBinade mantissa binade).lower := by
  have := formed.positive
  rw [lower_ofBinade]
  split <;> omega

theorem lower_lt (formed : IsMantissa mantissa binade) :
    (ofBinade mantissa binade).lower < 4 * mantissa := by
  have := formed.positive
  rw [lower_ofBinade]
  split <;> omega

/-- What is farther from the lower end than a multiple in the interval, and strictly below the
upper end, is in the interval. -/
theorem holds_of_le_of_lt
    {interval : Interval}
    {factors : Nat × Nat}
    {multiple other : Nat}
    (held : interval.holds factors multiple = true)
    (above : multiple * factors.2 ≤ other * factors.2)
    (upper : other * factors.2 < interval.upper * factors.1) :
    interval.holds factors other = true := by
  rw [holds_iff] at held ⊢
  split at held
  next closed =>
      rw [if_pos closed]
      omega
  next opened =>
      rw [if_neg opened]
      omega

/-- What is farther from the upper end than a multiple in the interval, and strictly above the
lower end, is in the interval. -/
theorem holds_of_lt_of_le
    {interval : Interval}
    {factors : Nat × Nat}
    {multiple other : Nat}
    (held : interval.holds factors multiple = true)
    (lower : interval.lower * factors.1 < other * factors.2)
    (below : other * factors.2 ≤ multiple * factors.2) :
    interval.holds factors other = true := by
  rw [holds_iff] at held ⊢
  split at held
  next closed =>
      rw [if_pos closed]
      omega
  next opened =>
      rw [if_neg opened]
      omega

/-- Where any multiple is in the interval, one of the two next to the double is. -/
theorem isSome_multiple?_of_holds
    {power : Int}
    {multiple : Nat}
    (formed : IsMantissa mantissa binade)
    (held : (ofBinade mantissa binade).holds ((ofBinade mantissa binade).scale power) multiple =
      true) :
    ((ofBinade mantissa binade).multiple? power).isSome = true := by
  have nonzero := scale_pos (ofBinade mantissa binade) power
  have positive := scale_fst_pos (ofBinade mantissa binade) power
  have inside := Nat.mul_lt_mul_of_pos_right (lower_lt formed) positive
  unfold multiple?
  dsimp only
  rw [middle_ofBinade]
  generalize (ofBinade mantissa binade).scale power = factors at *
  have close := Nat.div_mul_le_self (4 * mantissa * factors.1) factors.2
  have beyond := Nat.lt_div_mul_add (a := 4 * mantissa * factors.1) nonzero
  rw [← Nat.add_one_mul] at beyond
  generalize 4 * mantissa * factors.1 / factors.2 = below at *
  rcases Nat.lt_or_ge below multiple with greater | least
  · have above : (ofBinade mantissa binade).holds factors (below + 1) = true :=
      holds_of_lt_of_le held (inside.trans beyond) (Nat.mul_le_mul_right factors.2 greater)
    rw [above]
    split <;> first | rfl | contradiction
  · have upper : 4 * mantissa * factors.1 < (ofBinade mantissa binade).upper * factors.1 :=
      Nat.mul_lt_mul_of_pos_right (Nat.lt_add_of_pos_right two_pos) positive
    have under : (ofBinade mantissa binade).holds factors below = true :=
      holds_of_le_of_lt held (Nat.mul_le_mul_right factors.2 least) (close.trans_lt upper)
    rw [under]
    split <;> first | rfl | contradiction

/-- A multiple of ten is a multiple of the next power of ten. -/
theorem exists_scale_succ (interval : Interval) (power : Int) :
    ∃ common, 0 < common ∧
      (interval.scale power).1 = common * (interval.scale (power + 1)).1 ∧
        10 * (interval.scale power).2 = common * (interval.scale (power + 1)).2 := by
  unfold scale
  dsimp only
  simp only [Nat.shiftLeft_eq, Nat.pow_eq]
  rcases Int.lt_or_le power 0 with negative | nonneg
  · refine ⟨10, by decide, ?_, ?_⟩
    · rw [← Nat.mul_assoc, ← Nat.pow_succ']
      congr 2
      omega
    · rw [Int.toNat_of_nonpos negative.le, Int.toNat_of_nonpos (by omega : power + 1 ≤ 0)]
  · refine ⟨1, by decide, ?_, ?_⟩
    · rw [Nat.one_mul, Int.toNat_of_nonpos (by omega : -power ≤ 0),
        Int.toNat_of_nonpos (by omega : -(power + 1) ≤ 0)]
    · rw [Nat.one_mul, ← Nat.mul_assoc, ← Nat.pow_succ']
      congr 2
      omega

theorem holds_ten_mul
    {interval : Interval}
    {power : Int}
    {multiple : Nat}
    (held : interval.holds (interval.scale power) (10 * multiple) = true) :
    interval.holds (interval.scale (power + 1)) multiple = true := by
  obtain ⟨common, positive, first, second⟩ := exists_scale_succ interval power
  have point : 10 * multiple * (interval.scale power).2 =
      common * (multiple * (interval.scale (power + 1)).2) := by
    rw [Nat.mul_right_comm, second]
    ring
  have ends (bound : Nat) : bound * (interval.scale power).1 =
      common * (bound * (interval.scale (power + 1)).1) := by
    rw [first]
    ring
  rw [holds_iff, point, ends, ends] at held
  rw [holds_iff]
  simpa only [Nat.mul_le_mul_left_iff positive, Nat.mul_lt_mul_left positive] using held

/-- The greatest power of ten that is tried is above the logarithm of the double. -/
theorem lt_topPower (mantissa binade : Nat) :
    30103 * (((4 * mantissa).log2 : Int) + binade - 1074) <
      100000 * (ofBinade mantissa binade).topPower := by
  unfold topPower
  dsimp only
  rw [Int.fdiv_eq_ediv_of_nonneg _ (by decide)]
  simp only [ofBinade, around]
  omega

theorem four_mul_lt_log2 (positive : 0 < mantissa) :
    4 * mantissa + 2 < 2 ^ ((4 * mantissa).log2 + 1) := by
  have bound : 4 * mantissa < 2 ^ ((4 * mantissa).log2 + 1) := Nat.lt_log2_self
  have least : 2 ≤ (4 * mantissa).log2 := (Nat.le_log2 (by omega)).mpr (by omega)
  obtain ⟨others, same⟩ := Nat.exists_eq_add_of_le' least
  rw [same, Nat.pow_succ, Nat.pow_add] at bound ⊢
  omega

/-- The power of ten above those that are tried is greater than all numbers in the interval. -/
theorem scale_gt
    {power : Int}
    (formed : IsMantissa mantissa binade)
    (finite : binade ≤ 2045)
    (above : power = (ofBinade mantissa binade).topPower + 1) :
    (ofBinade mantissa binade).upper * ((ofBinade mantissa binade).scale power).1 <
      ((ofBinade mantissa binade).scale power).2 := by
  have bound := lt_topPower mantissa binade
  have short : (4 * mantissa).log2 < 55 := log2_lt formed
  have least : 4 * mantissa + 2 < 2 ^ ((4 * mantissa).log2 + 1) :=
    four_mul_lt_log2 formed.positive
  generalize (4 * mantissa).log2 = bits at *
  obtain ⟨places, first, second⟩ := scale_ofBinade mantissa binade power
  rw [← Nat.mul_lt_mul_right (Nat.two_pow_pos places), second, Nat.mul_assoc, first, upper_ofBinade]
  refine (Nat.mul_lt_mul_of_pos_right least (Nat.mul_pos (Nat.pow_pos (by decide))
    (Nat.two_pow_pos _))).trans_le ?_
  rw [Nat.mul_left_comm, ← Nat.pow_add]
  rcases lt_or_ge 0 power with positive | nonpos
  · rw [Int.toNat_of_nonpos (by omega : -power ≤ 0), Nat.pow_zero, Nat.one_mul]
    have fewer : 16 * (bits + 1 + binade - 1076) ≤ 53 * power.toNat := by omega
    have enough : bits + 1 + binade ≤ (bits + 1 + binade - 1076) + 1076 := by omega
    refine (pow_le_pow_right₀ one_le_two enough).trans ?_
    rw [pow_add]
    exact Nat.mul_le_mul_right _ (pow_two_lt_pow_ten (by omega) fewer).le
  · rw [Int.toNat_of_nonpos nonpos, Nat.pow_zero, Nat.one_mul]
    have fewer : 10 * (-power).toNat < 3 * (1076 - (bits + 1 + binade)) := by omega
    refine (Nat.mul_le_mul_right _ (pow_ten_lt_pow_two fewer).le).trans ?_
    rw [← pow_add]
    exact pow_le_pow_right₀ one_le_two (by omega)

/-- No multiple of a greater power of ten is in the interval. -/
theorem holds_above_shortest
    (formed : IsMantissa mantissa binade)
    (finite : binade ≤ 2045)
    (multiple : Nat) :
    (ofBinade mantissa binade).holds
      ((ofBinade mantissa binade).scale ((ofBinade mantissa binade).shortest.power + 1))
      multiple = false := by
  obtain ⟨step, found, missed⟩ := exists_multiple?_shortest formed finite
  rw [(holds_of_multiple? found).1]
  refine Bool.eq_false_iff.mpr fun held => ?_
  cases step with
  | succ step =>
      have some := isSome_multiple?_of_holds formed held
      have none := missed step (Nat.lt_succ_self step)
      rw [show (ofBinade mantissa binade).topPower - ((step + 1 : Nat) : Int) + 1 =
        (ofBinade mantissa binade).topPower - step by omega, none] at some
      contradiction
  | zero =>
      have beyond := scale_gt formed finite rfl
      have positive := scale_fst_pos (ofBinade mantissa binade)
        ((ofBinade mantissa binade).topPower + 1)
      have bottom := Nat.mul_pos (lower_pos formed) positive
      rw [Nat.cast_zero, sub_zero] at held
      generalize (ofBinade mantissa binade).scale _ = factors at *
      rw [holds_iff] at held
      rcases Nat.eq_zero_or_pos multiple with rfl | some
      · split at held <;> omega
      · have := Nat.le_mul_of_pos_left factors.2 some
        split at held <;> omega

/-- The digits of the number that is found do not end in a zero. -/
theorem not_dvd_digits_shortest
    (formed : IsMantissa mantissa binade)
    (finite : binade ≤ 2045) :
    ¬ 10 ∣ (ofBinade mantissa binade).shortest.digits := by
  rintro ⟨multiple, same⟩
  have held := holds_shortest formed finite
  rw [same] at held
  have above := holds_ten_mul held
  rw [holds_above_shortest formed finite] at above
  contradiction

end Interval
end Decimal
end Scripting
