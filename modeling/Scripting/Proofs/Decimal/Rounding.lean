import Mathlib.Data.Nat.Log
import Mathlib.Tactic.Ring
import Scripting.Decimal.Nearest

/-!
# What rounds to a double

Every quotient in the interval around a double is rounded to it by `Decimal.nearestBits`: from
half a unit below to half a unit above, or from a quarter of a unit below when the double is the
least of its binade, the ends included when its mantissa is even.

Main statement: `IsNear.nearestBits_eq`.
-/

namespace Scripting
namespace Decimal

variable {num den count mantissa binade : Nat}

/-- What is at most half a unit away from a count is rounded to it, if nothing lies exactly
between two counts or the count is even. -/
theorem roundQuotient_eq
    (den_pos : 0 < den)
    (above : 2 * (count * den) ≤ 2 * num + den)
    (below : 2 * num ≤ 2 * (count * den) + den)
    (strict : count % 2 = 1 →
      2 * (count * den) < 2 * num + den ∧ 2 * num < 2 * (count * den) + den) :
    roundQuotient num den = count := by
  have split : num / den * den + num % den = num := Nat.div_add_mod' num den
  have rest : num % den < den := Nat.mod_lt num den_pos
  have atMost : num / den ≤ count := by
    by_contra beyond
    have := Nat.mul_le_mul_right den (Nat.not_le.mp beyond)
    rw [Nat.succ_mul] at this
    omega
  have atLeast : count ≤ num / den + 1 := by
    by_contra beyond
    have := Nat.mul_le_mul_right den (Nat.not_le.mp beyond)
    rw [Nat.succ_mul, Nat.succ_mul] at this
    omega
  unfold roundQuotient
  dsimp only
  obtain same | next : num / den = count ∨ num / den + 1 = count := by omega
  · rw [same] at split ⊢
    rw [if_neg (by omega)]
  · have whole : count * den = num / den * den + den := by rw [← next, Nat.succ_mul]
    rw [if_pos (by omega), next]

/-- A quotient of natural numbers in units of `2 ^ -1074` is in the interval around
`mantissa * 2 ^ binade`. -/
structure IsNear (mantissa binade num den : Nat) : Prop where
  above : (if mantissa = 2 ^ 52 ∧ 0 < binade then 4 * mantissa - 1 else 4 * mantissa - 2) *
    (den * 2 ^ binade) ≤ 4 * num
  below : 4 * num ≤ (4 * mantissa + 2) * (den * 2 ^ binade)
  strict : mantissa % 2 = 1 →
    (4 * mantissa - 2) * (den * 2 ^ binade) < 4 * num ∧
      4 * num < (4 * mantissa + 2) * (den * 2 ^ binade)

/-- The mantissa is that of a double in the binade. -/
structure IsMantissa (mantissa binade : Nat) : Prop where
  positive : 0 < mantissa
  lt : mantissa < 2 ^ 53
  full : 0 < binade → 2 ^ 52 ≤ mantissa

theorem IsNear.roundQuotient_eq
    (near : IsNear mantissa binade num den)
    (den_pos : 0 < den)
    (positive : 0 < mantissa) :
    roundQuotient num (den * 2 ^ binade) = mantissa := by
  obtain ⟨above, below, strict⟩ := near
  have unit_pos : 0 < den * 2 ^ binade := Nat.mul_pos den_pos (Nat.two_pow_pos binade)
  generalize den * 2 ^ binade = unit at *
  obtain ⟨less, rfl⟩ := Nat.exists_eq_add_of_lt positive
  have half : 4 * (0 + less + 1) - 2 = 4 * less + 2 := by omega
  have quarter : (4 * less + 2) * unit ≤ 4 * num := by
    refine Nat.le_trans (Nat.mul_le_mul_right unit ?_) above
    split <;> omega
  rw [half] at strict
  simp only [Nat.add_mul, Nat.mul_assoc, Nat.zero_add, Nat.one_mul] at *
  exact Decimal.roundQuotient_eq unit_pos (by rw [Nat.add_mul]; omega) (by rw [Nat.add_mul]; omega)
    (fun odd => by have := strict odd; rw [Nat.add_mul]; omega)

/-- The number of bits tells the binade of a quotient. -/
theorem log2_sub_eq
    (positive : 0 < binade → 2 ^ (52 + binade) ≤ num)
    (bound : num < 2 ^ (53 + binade)) :
    num.log2 - 52 = binade := by
  rcases Nat.eq_zero_or_pos num with rfl | nonzero
  · rcases Nat.eq_zero_or_pos binade with rfl | some
    · rfl
    · exact absurd (positive some) (Nat.not_le.mpr (Nat.two_pow_pos _))
  · have short : num.log2 < 53 + binade := (Nat.log2_lt nonzero.ne').mpr bound
    rcases Nat.eq_zero_or_pos binade with rfl | some
    · omega
    · have long : 52 + binade ≤ num.log2 := (Nat.le_log2 nonzero.ne').mpr (positive some)
      omega

theorem IsNear.div_lt
    (near : IsNear mantissa binade num den)
    (den_pos : 0 < den)
    (formed : IsMantissa mantissa binade) :
    num / den < 2 ^ (53 + binade) := by
  have below := near.below
  have room : 4 * mantissa + 2 < 4 * 2 ^ 53 := by have := formed.lt; omega
  have unit_pos : 0 < den * 2 ^ binade := Nat.mul_pos den_pos (Nat.two_pow_pos binade)
  have bound := Nat.lt_of_le_of_lt below (Nat.mul_lt_mul_of_pos_right room unit_pos)
  rw [Nat.div_lt_iff_lt_mul den_pos, Nat.pow_add, Nat.mul_assoc, Nat.mul_comm _ den]
  rw [Nat.mul_assoc] at bound
  exact Nat.lt_of_mul_lt_mul_left bound

/-- Below the least number of a binade only what is nearest to this number is in an interval
around a number of the binade. -/
theorem IsNear.eq_least
    (near : IsNear mantissa binade num den)
    (full : 2 ^ 52 ≤ mantissa)
    (under : num < 2 ^ 52 * (den * 2 ^ binade)) :
    mantissa = 2 ^ 52 := by
  by_contra greater
  have above := near.above
  rw [if_neg fun both => greater both.1] at above
  have more : 4 * 2 ^ 52 ≤ 4 * mantissa - 2 := by omega
  have := Nat.le_trans (Nat.mul_le_mul_right (den * 2 ^ binade) more) above
  rw [Nat.mul_assoc] at this
  omega

/-- What is in the interval around a double is rounded to it. -/
theorem IsNear.nearestBits_eq
    (near : IsNear mantissa binade (num <<< 1074) den)
    (den_pos : 0 < den)
    (formed : IsMantissa mantissa binade)
    (finite : binade ≤ 2045) :
    nearestBits num den = binade * 2 ^ 52 + mantissa := by
  have small := formed.lt
  have bounded : binade * 2 ^ 52 + mantissa ≤ infinityBits := by
    rw [infinityBits, Nat.shiftLeft_eq]
    omega
  unfold nearestBits
  dsimp only
  by_cases inside : 0 < binade → 2 ^ (52 + binade) ≤ num <<< 1074 / den
  · rw [log2_sub_eq inside (near.div_lt den_pos formed), Nat.shiftLeft_eq den,
      near.roundQuotient_eq den_pos formed.positive, Nat.shiftLeft_eq]
    exact Nat.min_eq_left bounded
  · -- The quotient is rounded up to the least number of the next binade.
    obtain ⟨some, short⟩ := Classical.not_imp.mp inside
    obtain ⟨lower, rfl⟩ := Nat.exists_eq_add_of_lt some
    rw [Nat.zero_add] at *
    have under : num <<< 1074 < 2 ^ 52 * (den * 2 ^ (lower + 1)) := by
      rw [Nat.not_le, Nat.div_lt_iff_lt_mul den_pos, Nat.pow_add, Nat.mul_assoc] at short
      rwa [Nat.mul_comm den]
    obtain rfl := near.eq_least (formed.full some) under
    have above := near.above
    rw [if_pos ⟨rfl, some⟩] at above
    have halves : den * 2 ^ (lower + 1) = den * 2 ^ lower * 2 := by rw [Nat.pow_succ, Nat.mul_assoc]
    rw [halves] at above under
    generalize unit : den * 2 ^ lower = step at above under
    have reaches : 2 ^ (52 + lower) ≤ num <<< 1074 / den := by
      rw [Nat.le_div_iff_mul_le den_pos, Nat.pow_add, Nat.mul_assoc, Nat.mul_comm _ den, unit]
      omega
    have here : num <<< 1074 / den < 2 ^ (53 + lower) := by
      rw [show 53 + lower = 52 + (lower + 1) by omega]
      exact Nat.not_le.mp short
    have rounded : roundQuotient (num <<< 1074) step = 2 ^ 53 :=
      Decimal.roundQuotient_eq (unit ▸ Nat.mul_pos den_pos (Nat.two_pow_pos lower)) (by omega)
        (by omega) (by omega)
    have carried : lower * 2 ^ 52 + 2 ^ 53 = (lower + 1) * 2 ^ 52 + 2 ^ 52 := by omega
    rw [log2_sub_eq (fun _ => reaches) here, Nat.shiftLeft_eq den, unit, rounded, Nat.shiftLeft_eq,
      carried]
    exact Nat.min_eq_left bounded

end Decimal
end Scripting
