import Scripting.Evaluation
import Scripting.Proofs.Decimal.Exact

/-!
# Equality

What `==` tells of two values on a machine depends on the values alone.  It is symmetric and
transitive, every value is equal to itself but for a number that is none, and values of
different types are not equal; `!=` tells the contrary.

Doubles are compared by their unpacked form, in which nothing but the sign of a zero is passed
over.

Main statement: `Machine.compares`.
-/

namespace Scripting

/-! ## Doubles -/

namespace Decimal

open Float.Model (UnpackedFloat)

/-- What a double is compared as: without the sign of a zero, and as nothing if it is not a
number. -/
def comparand : UnpackedFloat → Option UnpackedFloat
  | .notANumber => none
  | .zero _ => some (.zero .positive)
  | unpacked => some unpacked

section Finite

variable {sign other : UnpackedFloat.Sign} {mantissa otherMantissa : Nat}
  {exponent otherExponent : Int}
variable (positive : 0 < mantissa) (otherPositive : 0 < otherMantissa)

theorem comparand_finite_eq_iff :
    comparand (.finite sign mantissa exponent positive) =
        comparand (.finite other otherMantissa otherExponent otherPositive) ↔
      sign = other ∧ mantissa = otherMantissa ∧ exponent = otherExponent := by
  rw [← UnpackedFloat.finite.injEq sign mantissa exponent positive]
  exact Option.some_inj

theorem compare_finite_eq_some_eq_iff :
    (UnpackedFloat.finite sign mantissa exponent positive).compare
        (.finite other otherMantissa otherExponent otherPositive) = some .eq ↔
      sign = other ∧ mantissa = otherMantissa ∧ exponent = otherExponent := by
  have equal :
      (compare exponent otherExponent).then (compare mantissa otherMantissa) = .eq ↔
        mantissa = otherMantissa ∧ exponent = otherExponent := by
    simp [Ordering.then_eq_eq, and_comm]
  -- Below zero the greater magnitude is the lesser number, which changes nothing here.
  cases sign <;> cases other
  case positive.positive =>
    rw [and_iff_right rfl, ← equal]
    exact Option.some_inj
  case negative.negative =>
    rw [and_iff_right rfl, ← equal, ← Ordering.swap_eq_eq]
    exact Option.some_inj
  all_goals exact iff_of_false (by rintro ⟨⟩) (by rintro ⟨⟨⟩, -⟩)

end Finite

theorem compare_eq_some_eq_iff (left right : UnpackedFloat) :
    left.compare right = some .eq ↔
      comparand left = comparand right ∧ comparand left ≠ none := by
  cases left with
  | notANumber => exact iff_of_false (by rintro ⟨⟩) fun same => same.2 rfl
  | infinity sign =>
      cases right with
      | infinity other =>
          cases sign <;> cases other
          case positive.positive | negative.negative =>
            exact iff_of_true rfl ⟨rfl, Option.some_ne_none _⟩
          all_goals exact iff_of_false (by rintro ⟨⟩) (by rintro ⟨⟨⟩, -⟩)
      | _ => cases sign <;> exact iff_of_false (by rintro ⟨⟩) (by rintro ⟨⟨⟩, -⟩)
  | zero sign =>
      cases right with
      | zero other => exact iff_of_true rfl ⟨rfl, Option.some_ne_none _⟩
      | finite other | infinity other =>
          cases other <;> exact iff_of_false (by rintro ⟨⟩) (by rintro ⟨⟨⟩, -⟩)
      | notANumber => exact iff_of_false (by rintro ⟨⟩) (by rintro ⟨⟨⟩, -⟩)
  | finite sign mantissa exponent positive =>
      cases right with
      | finite other otherMantissa otherExponent otherPositive =>
          have isNumber : comparand (.finite sign mantissa exponent positive) ≠ none :=
            Option.some_ne_none _
          rw [compare_finite_eq_some_eq_iff, comparand_finite_eq_iff, and_iff_left isNumber]
      | infinity other => cases other <;> exact iff_of_false (by rintro ⟨⟩) (by rintro ⟨⟨⟩, -⟩)
      | _ => cases sign <;> exact iff_of_false (by rintro ⟨⟩) (by rintro ⟨⟨⟩, -⟩)

theorem beq_eq_true_iff (left right : Float) :
    (left == right) = true ↔
      comparand left.toModel.unpack = comparand right.toModel.unpack ∧
        comparand left.toModel.unpack ≠ none := by
  have same : (left == right) =
      (left.toModel.unpack.compare right.toModel.unpack == some .eq) := rfl
  rw [same, beq_iff_eq, compare_eq_some_eq_iff]

theorem comparand_ne_none_iff (number : Float) :
    comparand number.toModel.unpack ≠ none ↔ number.isNaN = false := by
  unfold Float.isNaN Float.Model.isNaN
  cases number.toModel.unpack with
  | notANumber => exact iff_of_false (fun differs => differs rfl) (by rintro ⟨⟩)
  | _ => exact iff_of_true (Option.some_ne_none _) rfl

end Decimal

/-! ## Values -/

namespace Value

variable {left middle right : Value}

/-- The value is a number that is none. -/
def IsNaN (value : Value) : Prop :=
  ∃ number, value = .number number ∧ number.isNaN = true

theorem same_symm (equal : left.same right = true) : right.same left = true := by
  cases left <;> cases right
  case number.number left right =>
    obtain ⟨same, isNumber⟩ := (Decimal.beq_eq_true_iff left right).mp equal
    exact (Decimal.beq_eq_true_iff right left).mpr ⟨same.symm, same ▸ isNumber⟩
  all_goals simp_all [same]

theorem same_trans
    (first : left.same middle = true)
    (second : middle.same right = true) :
    left.same right = true := by
  cases left <;> cases middle <;> cases right
  case number.number.number left middle right =>
    obtain ⟨same, isNumber⟩ := (Decimal.beq_eq_true_iff left middle).mp first
    obtain ⟨alsoSame, -⟩ := (Decimal.beq_eq_true_iff middle right).mp second
    exact (Decimal.beq_eq_true_iff left right).mpr ⟨same.trans alsoSame, isNumber⟩
  all_goals simp_all [same]

theorem same_self_iff (value : Value) : value.same value = true ↔ ¬ value.IsNaN := by
  cases value with
  | number number =>
      have reflexive : (number == number) = true ↔ number.isNaN = false := by
        rw [Decimal.beq_eq_true_iff, Decimal.comparand_ne_none_iff]
        exact and_iff_right rfl
      simp [same, IsNaN, reflexive]
  | _ => simp [same, IsNaN]

end Value

/-! ## Operators -/

/-- The operators that tell whether two values are equal. -/
def Token.equality : List Token.Kind :=
  [.equalEqual, .bangEqual]

namespace Machine

variable {machine : Machine} {left right : Value} {answer : Bool}

/-- On the machine, an operator of this kind judges two values so, and does nothing else. -/
def Judges (machine : Machine) (kind : Token.Kind) (left right : Value) (answer : Bool) : Prop :=
  ∀ operator : Token, operator.kind = kind →
    Steps.binaryValue operator left right machine = .ok (.bool answer) machine

theorem judges_iff_of_binaryValue
    {kind : Token.Kind}
    {found : Bool}
    (finds : ∀ operator : Token, operator.kind = kind →
      Steps.binaryValue operator left right machine = .ok (.bool found) machine) :
    machine.Judges kind left right answer ↔ answer = found := by
  refine ⟨fun judged => ?_, fun same => same ▸ finds⟩
  have isFound := judged (.placeless kind "") rfl
  rw [finds (.placeless kind "") rfl] at isFound
  cases isFound
  rfl

theorem judges_equal_iff :
    machine.Judges .equalEqual left right answer ↔ answer = left.same right :=
  judges_iff_of_binaryValue fun operator kind => by
    unfold Steps.binaryValue
    rw [kind]
    rfl

theorem judges_unequal_iff :
    machine.Judges .bangEqual left right answer ↔ answer = !(left.same right) :=
  judges_iff_of_binaryValue fun operator kind => by
    unfold Steps.binaryValue
    rw [kind]
    rfl

/-- No machine judges two values otherwise than another one. -/
theorem Judges.of_equality
    {kind : Token.Kind}
    (judged : machine.Judges kind left right answer)
    (isEquality : kind ∈ Token.equality)
    (other : Machine) :
    other.Judges kind left right answer := by
  obtain rfl | isUnequal := List.mem_cons.mp isEquality
  · rw [judges_equal_iff] at judged ⊢
    exact judged
  · obtain rfl := List.mem_singleton.mp isUnequal
    rw [judges_unequal_iff] at judged ⊢
    exact judged

/-- On the machine `==` is decided for all values, and is an equality but for what is not a
number; `!=` is its negation. -/
structure Compares (machine : Machine) : Prop where
  decided : ∀ left right, ∃ answer, machine.Judges .equalEqual left right answer
  symmetric : ∀ left right answer,
    machine.Judges .equalEqual left right answer → machine.Judges .equalEqual right left answer
  transitive : ∀ left middle right, machine.Judges .equalEqual left middle true →
    machine.Judges .equalEqual middle right true → machine.Judges .equalEqual left right true
  reflexive : ∀ value, machine.Judges .equalEqual value value true ↔ ¬ value.IsNaN
  typed : ∀ left right : Value, left.typeName ≠ right.typeName →
    machine.Judges .equalEqual left right false
  negated : ∀ left right answer,
    machine.Judges .bangEqual left right (!answer) ↔ machine.Judges .equalEqual left right answer

/-- On every machine values are compared in this way. -/
theorem compares (machine : Machine) : machine.Compares where
  decided left right := ⟨left.same right, judges_equal_iff.mpr rfl⟩
  symmetric left right answer judged := by
    rw [judges_equal_iff] at judged ⊢
    rw [judged, Bool.eq_iff_iff]
    exact ⟨Value.same_symm, Value.same_symm⟩
  transitive left middle right first second := by
    rw [judges_equal_iff] at first second ⊢
    exact (Value.same_trans first.symm second.symm).symm
  reflexive value := by
    rw [judges_equal_iff, eq_comm]
    exact value.same_self_iff
  typed left right differ := by
    rw [judges_equal_iff, eq_comm, Bool.eq_false_iff]
    exact fun same => differ (Value.typeName_eq_of_same same)
  negated left right answer := by
    rw [judges_equal_iff, judges_unequal_iff, Bool.not_inj_iff]

end Machine
end Scripting
