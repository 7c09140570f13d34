import Scripting.Proofs.Meaning.Nodes
import Scripting.Proofs.Meaning.Operators
import Scripting.Proofs.Running.Renumbered

/-!
# Expressions evaluated again

An expression in which nothing is called and nothing is assigned leaves everything as it is but
for new arrays, the values of its array literals.  If it is evaluated again, other arrays stand
before the new ones, so that these get other numbers.  They are the only difference: step by
step the second evaluation finds what the first one found, in a store that numbers its arrays
differently (`Recurs`).  The store has to be closed before: an array that is referred to but
not there could turn up behind the first evaluation.  In a session it always is.

Main statement: `Run.evaluateWithin_again`.
-/

namespace Scripting

/-! ## Calm expressions -/

namespace Tree.Expression

mutual

/-- Whether an expression has no calls and no assignments in it. -/
def isCalm : Expression → Bool
  | .constant _ _ => true
  | .mention _ => true
  | .group _ inner => inner.isCalm
  | .array _ items => areCalm items
  | .unary _ operand => operand.isCalm
  | .binary _ left right => left.isCalm && right.isCalm
  | .logical _ left right => left.isCalm && right.isCalm
  | .assignment _ _ => false
  | .call _ _ _ => false
  | .index _ target position => target.isCalm && position.isCalm

/-- Whether no expression has calls or assignments in it. -/
def areCalm : List Expression → Bool
  | [] => true
  | expression :: others => expression.isCalm && areCalm others

end

mutual

/-- How deep the parts of an expression stand in each other. -/
def height : Expression → Nat
  | .constant _ _ => 0
  | .mention _ => 0
  | .group _ inner => inner.height + 1
  | .array _ items => heights items + 1
  | .unary _ operand => operand.height + 1
  | .binary _ left right => max left.height right.height + 1
  | .logical _ left right => max left.height right.height + 1
  | .assignment _ value => value.height + 1
  | .call _ callee arguments => max callee.height (heights arguments) + 1
  | .index _ target position => max target.height position.height + 1

/-- The height of the highest expression. -/
def heights : List Expression → Nat
  | [] => 0
  | expression :: others => max expression.height (heights others)

end

end Tree.Expression

/-! ## Further arrays -/

namespace Machine

/-- The machine with further arrays. -/
def adding (machine : Machine) (arrays : Array (Array Value)) : Machine :=
  { machine with store := { machine.store with arrays := machine.store.arrays ++ arrays } }

/-- The machine with arrays in a gap and then further arrays, which have moved over the gap. -/
def addingAfter (machine : Machine) (gap arrays : Array (Array Value)) : Machine :=
  machine.adding
    (gap ++ arrays.map fun items => items.map (Value.moved machine.store.arrays.size gap.size))

variable {machine : Machine}

@[simp] theorem adding_empty : machine.adding #[] = machine := by
  simp [adding]

@[simp] theorem addingAfter_empty (gap : Array (Array Value)) :
    machine.addingAfter gap #[] = machine.adding gap := by
  simp [addingAfter]

theorem adding_injective {arrays others : Array (Array Value)}
    (same : machine.adding arrays = machine.adding others) :
    arrays = others := by
  have arrays := congrArg (·.store.arrays) same
  exact (Array.append_right_inj _).mp arrays

/-- In a closed store nothing but the further arrays has moved. -/
theorem renumbers_addingAfter
    (closed : machine.store.Closed)
    (gap arrays : Array (Array Value)) :
    Store.Renumbers machine.store.arrays.size gap.size (machine.adding arrays).store
      (machine.addingAfter gap arrays).store where
  frames := rfl
  callables := rfl
  elements id := by
    simp only [Store.elements, adding, addingAfter]
    rcases Nat.lt_or_ge id machine.store.arrays.size with before | behind
    · rw [ArrayId.moved_of_lt before, Array.getElem?_append_left before,
        Array.getElem?_append_left before, Array.getElem?_eq_getElem before, Option.getD_some]
      have elements : machine.store.elements id = machine.store.arrays[id] := by
        rw [Store.elements, Array.getElem?_eq_getElem before, Option.getD_some]
      refine (Array.map_id' _).symm.trans (Array.map_congr_left fun item member => ?_)
      exact (Value.moved_of_isBefore (closed.elements id item (elements ▸ member))).symm
    · have place : id + gap.size - machine.store.arrays.size - gap.size =
          id - machine.store.arrays.size := by rw [Nat.sub_right_comm, Nat.add_sub_cancel]
      have beyond : gap.size ≤ id + gap.size - machine.store.arrays.size :=
        Nat.le_sub_of_add_le (Nat.add_comm id _ ▸ Nat.add_le_add_left behind _)
      rw [ArrayId.moved_of_le behind, Array.getElem?_append_right (Nat.le_add_right_of_le behind),
        Array.getElem?_append_right beyond, Array.getElem?_append_right behind,
        Array.getElem?_map, place]
      cases arrays[id - machine.store.arrays.size]? <;> simp

end Machine

/-! ## Work done again -/

variable {α β : Type}

/-- How work ends. -/
def Run.ends : Except Interrupt α → Machine → EStateM.Result Interrupt Machine α
  | .ok value, machine => .ok value machine
  | .error interrupt, machine => .error interrupt machine

theorem Run.ends_injective
    {outcome other : Except Interrupt α}
    {machine later : Machine}
    (same : ends outcome machine = ends other later) :
    outcome = other ∧ machine = later := by
  cases outcome <;> cases other <;> cases same <;> exact ⟨rfl, rfl⟩

/-- On a machine to which some arrays have been added, the work adds further ones and does
nothing else. When there are other arrays in a gap before them, the work that is done again ends
in the same way, but for the numbers of the arrays behind the gap. The work is not interrupted
by the bound if that is large enough. -/
def Recurs (machine : Machine) (gap : Array (Array Value)) (carry : α → α) (enough : Prop)
    (arrays : Array (Array Value)) (work again : Run α) : Prop :=
  ∃ outcome further, (enough → outcome ≠ .error .exhausted) ∧
    work (machine.adding arrays) = Run.ends outcome (machine.adding (arrays ++ further)) ∧
    again (machine.addingAfter gap arrays) =
      Run.ends (outcome.map carry) (machine.addingAfter gap (arrays ++ further))

namespace Recurs

variable {machine : Machine} {gap arrays : Array (Array Value)} {enough : Prop}
  {carry : α → α} {carryNext : β → β} {work again : Run α}

/-- Work that adds no arrays. -/
theorem still
    (outcome : Except Fault α)
    (ends : work (machine.adding arrays) = Meaning.ended outcome (machine.adding arrays))
    (endsAgain : again (machine.addingAfter gap arrays) =
      Meaning.ended (outcome.map carry) (machine.addingAfter gap arrays)) :
    Recurs machine gap carry enough arrays work again := by
  refine ⟨outcome.mapError .fault, #[], fun _ => ?_, ?_, ?_⟩
  · cases outcome <;> exact nofun
  · rw [ends, Array.append_empty]
    cases outcome <;> rfl
  · rw [endsAgain, Array.append_empty]
    cases outcome <;> rfl

theorem pure (value : α) :
    Recurs machine gap carry enough arrays (Pure.pure value) (Pure.pure (carry value)) :=
  still (.ok value) rfl rfl

theorem of_eq
    {other otherAgain : Run α}
    (same : work (machine.adding arrays) = other (machine.adding arrays))
    (sameAgain : again (machine.addingAfter gap arrays) =
      otherAgain (machine.addingAfter gap arrays))
    (recurs : Recurs machine gap carry enough arrays other otherAgain) :
    Recurs machine gap carry enough arrays work again := by
  unfold Recurs
  rw [same, sameAgain]
  exact recurs

theorem mono
    {less : Prop}
    (implies : enough → less)
    (recurs : Recurs machine gap carry less arrays work again) :
    Recurs machine gap carry enough arrays work again := by
  obtain ⟨outcome, further, bounded, ends⟩ := recurs
  exact ⟨outcome, further, fun holds => bounded (implies holds), ends⟩

theorem bind
    {next nextAgain : α → Run β}
    (first : Recurs machine gap carry enough arrays work again)
    (second : ∀ value further, Recurs machine gap carryNext enough (arrays ++ further) (next value)
      (nextAgain (carry value))) :
    Recurs machine gap carryNext enough arrays (work >>= next) (again >>= nextAgain) := by
  obtain ⟨outcome, further, bounded, ends, endsAgain⟩ := first
  cases outcome with
  | ok value =>
      obtain ⟨outcome, last, boundedNext, endsNext, endsNextAgain⟩ := second value further
      refine ⟨outcome, further ++ last, boundedNext, ?_, ?_⟩
      · rw [Run.bind_of_ok ends, endsNext, Array.append_assoc]
      · rw [Run.bind_of_ok endsAgain, endsNextAgain, Array.append_assoc]
  | error interrupt =>
      refine ⟨.error interrupt, further, fun holds same => ?_, Run.bind_of_error ends,
        Run.bind_of_error endsAgain⟩
      cases same
      exact bounded holds rfl

end Recurs

/-! ## Operators -/

section Operators

variable {machine : Machine} {gap arrays : Array (Array Value)} {enough : Prop}

/-- A value whose arrays behind the gap have moved over it. -/
abbrev Machine.move (machine : Machine) (gap : Array (Array Value)) : Value → Value :=
  Value.moved machine.store.arrays.size gap.size

theorem recurs_unaryValue (operator : Token) (operand : Value) :
    Recurs machine gap (machine.move gap) enough arrays (Steps.unaryValue operator operand)
      (Steps.unaryValue operator (machine.move gap operand)) := by
  refine .still _ (Meaning.ended_unaryValue operator operand) ?_
  rw [Meaning.ended_unaryValue]
  congr 1
  unfold Meaning.unaryValue
  generalize operator.kind = kind
  cases kind with
  | minus => cases operand <;> rfl
  | bang => simp only [Value.isTruthy_moved]; rfl
  | _ => rfl

/-- Only numbers are made of numbers. -/
theorem ofNumbers_moved
    (first places : Nat)
    (operator : Token)
    (left right : Value)
    (value : Float → Float → Value)
    (isPlain : ∀ a b, (value a b).moved first places = value a b) :
    Meaning.ofNumbers operator (left.moved first places) (right.moved first places) value =
      (Meaning.ofNumbers operator left right value).map (Value.moved first places) := by
  cases left with
  | number left =>
      cases right with
      | number right => exact congrArg Except.ok (isPlain left right).symm
      | _ => rfl
  | _ => rfl

theorem recurs_ofNumbers
    (operator : Token)
    (left right : Value)
    (value : Float → Float → Value)
    (isPlain : ∀ a b, machine.move gap (value a b) = value a b) :
    Recurs machine gap (machine.move gap) enough arrays
      (Steps.numbers operator left right >>= fun pair => Pure.pure (value pair.1 pair.2))
      (Steps.numbers operator (machine.move gap left) (machine.move gap right) >>=
        fun pair => Pure.pure (value pair.1 pair.2)) := by
  refine .still _ (Meaning.ended_ofNumbers operator left right value) ?_
  rw [Meaning.ended_ofNumbers, ofNumbers_moved _ _ _ _ _ _ isPlain]

theorem recurs_quotient (operator : Token) (left right : Value) :
    Recurs machine gap (machine.move gap) enough arrays (Steps.quotient operator left right)
      (Steps.quotient operator (machine.move gap left) (machine.move gap right)) := by
  refine .still _ (Meaning.ended_quotient operator left right) ?_
  rw [Meaning.ended_quotient]
  congr 1
  unfold Meaning.quotient
  cases left with
  | number dividend =>
      cases right with
      | number divisor =>
          simp only [Value.moved]
          split <;> rfl
      | _ => rfl
  | _ => rfl

theorem recurs_textOf
    (closed : machine.store.Closed)
    (value : Value) :
    Recurs machine gap id enough arrays (Run.textOf value)
      (Run.textOf (machine.move gap value)) := by
  have text := (Machine.renumbers_addingAfter closed gap arrays).text_moved value
  refine .still (.ok ((machine.adding arrays).store.text value)) rfl ?_
  rw [Run.textOf, text]
  rfl

theorem recurs_sum
    (closed : machine.store.Closed)
    (operator : Token)
    (left right : Value) :
    Recurs machine gap (machine.move gap) enough arrays (Steps.sum operator left right)
      (Steps.sum operator (machine.move gap left) (machine.move gap right)) := by
  have texts : Recurs machine gap (machine.move gap) enough arrays (do
        let leftText ← Run.textOf left
        let rightText ← Run.textOf right
        return Value.text (leftText ++ rightText))
      (do
        let leftText ← Run.textOf (machine.move gap left)
        let rightText ← Run.textOf (machine.move gap right)
        return Value.text (leftText ++ rightText)) :=
    (recurs_textOf closed left).bind fun leftText _ =>
      (recurs_textOf closed right).bind fun rightText _ =>
        .pure (Value.text (leftText ++ rightText))
  have fails : Recurs machine gap (machine.move gap) enough arrays
      (Run.fail .operandsNotAddable operator) (Run.fail .operandsNotAddable operator) :=
    .still (.error (Fault.atToken .operandsNotAddable operator)) rfl rfl
  unfold Steps.sum
  cases left with
  | text left => exact texts
  | number left =>
      cases right with
      | text right => exact texts
      | number right => exact .pure (Value.number (left + right))
      | _ => exact fails
  | _ =>
      cases right with
      | text right => exact texts
      | _ => exact fails

theorem recurs_binaryValue
    (closed : machine.store.Closed)
    (operator : Token)
    (left right : Value) :
    Recurs machine gap (machine.move gap) enough arrays (Steps.binaryValue operator left right)
      (Steps.binaryValue operator (machine.move gap left) (machine.move gap right)) := by
  unfold Steps.binaryValue
  generalize operator.kind = kind
  cases kind with
  | equalEqual =>
      simp only [Value.same_moved]
      exact .pure (Value.bool (left.same right))
  | bangEqual =>
      simp only [Value.same_moved]
      exact .pure (Value.bool !(left.same right))
  | plus => exact recurs_sum closed operator left right
  | slash => exact recurs_quotient operator left right
  | minus => exact recurs_ofNumbers operator left right (fun a b => .number (a - b)) fun _ _ => rfl
  | star => exact recurs_ofNumbers operator left right (fun a b => .number (a * b)) fun _ _ => rfl
  | greater =>
      exact recurs_ofNumbers operator left right (fun a b => .bool (decide (b < a))) fun _ _ => rfl
  | greaterEqual =>
      exact recurs_ofNumbers operator left right (fun a b => .bool (decide (b ≤ a))) fun _ _ => rfl
  | less =>
      exact recurs_ofNumbers operator left right (fun a b => .bool (decide (a < b))) fun _ _ => rfl
  | lessEqual =>
      exact recurs_ofNumbers operator left right (fun a b => .bool (decide (a ≤ b))) fun _ _ => rfl
  | _ => exact .pure Value.null

theorem recurs_elementAt
    (closed : machine.store.Closed)
    (bracket : Token)
    (target position : Value) :
    Recurs machine gap (machine.move gap) enough arrays (Steps.elementAt bracket target position)
      (Steps.elementAt bracket (machine.move gap target) (machine.move gap position)) := by
  have fails (cause : Cause) (arrays : Array (Array Value)) : Recurs machine gap
      (machine.move gap) enough arrays (Run.fail cause bracket) (Run.fail cause bracket) :=
    .still (.error (Fault.atToken cause bracket)) rfl rfl
  unfold Steps.elementAt
  cases target with
  | array target =>
      cases position with
      | number number =>
          have elements := (Machine.renumbers_addingAfter closed gap arrays).elements target
          have asked : Recurs machine gap (Array.map (machine.move gap)) enough arrays
              (Run.elementsOf target)
              (Run.elementsOf (target.moved machine.store.arrays.size gap.size)) := by
            refine .still (.ok ((machine.adding arrays).store.elements target)) rfl ?_
            rw [Run.elementsOf, elements]
            rfl
          refine asked.bind fun items _ => ?_
          simp only [Array.getElem?_map, Array.size_map]
          generalize Decimal.wholePart number = index
          cases found : items[index.toNat]? with
          | none => cases index <;> exact fails _ _
          | some item =>
              cases index with
              | ofNat _ => exact .pure item
              | negSucc _ => exact fails _ _
      | _ => exact fails _ _
  | _ => exact fails _ _

theorem recurs_valueOf
    (closed : machine.store.Closed)
    (name : Token) :
    Recurs machine gap (machine.move gap) enough arrays (Run.valueOf name) (Run.valueOf name) := by
  have same : (machine.store.get machine.scope name).map (machine.move gap) =
      machine.store.get machine.scope name := by
    unfold Store.get
    cases found : machine.store.lookup machine.scope name.lexeme with
    | none => rfl
    | some value =>
        have before := closed.isBefore_of_lookup found
        exact congrArg Except.ok (Value.moved_of_isBefore before)
  have ends (later : Machine) : Run.valueOf name later =
      Meaning.ended (later.store.get later.scope name) later := by
    unfold Run.valueOf
    cases later.store.get later.scope name <;> rfl
  refine .still (machine.store.get machine.scope name) (ends (machine.adding arrays)) ?_
  rw [same]
  exact ends (machine.addingAfter gap arrays)

theorem recurs_newArray (items : Array Value) :
    Recurs machine gap (machine.move gap) enough arrays (Run.newArray items)
      (Run.newArray (items.map (machine.move gap))) := by
  refine ⟨.ok (.array (machine.adding arrays).store.nextArray), #[items], fun _ => nofun, ?_, ?_⟩
  · simp [Run.newArray, Run.ends, Machine.adding, Store.addArray, Store.nextArray]
  · have behind : machine.store.arrays.size ≤ machine.store.arrays.size + arrays.size :=
      Nat.le_add_right _ _
    have place : machine.store.arrays.size + (gap.size + arrays.size) =
        machine.store.arrays.size + arrays.size + gap.size := by omega
    simp [Run.newArray, Run.ends, Machine.adding, Machine.addingAfter, Store.addArray,
      Store.nextArray, Except.map, Value.moved, ArrayId.moved_of_le behind, place]

end Operators

/-! ## Evaluation -/

section Evaluation

open Tree (Expression)
open Tree.Rose (AllStandAt)
open Meaning (values)

variable {machine : Machine} {gap arrays : Array (Array Value)}

theorem Recurs.of_evaluateNode
    {bound : Nat}
    {id idAgain : Option Tree.NodeId}
    {enough : Prop}
    {work again : Run Value}
    (recurs : Recurs machine gap (machine.move gap) enough arrays work again)
    (ends : (Run.within bound).evaluateNode id (machine.adding arrays) =
      work (machine.adding arrays))
    (endsAgain : (Run.within bound).evaluateNode idAgain (machine.addingAfter gap arrays) =
      again (machine.addingAfter gap arrays)) :
    Recurs machine gap (machine.move gap) enough arrays ((Run.within (bound + 1)).evaluate id)
      ((Run.within (bound + 1)).evaluate idAgain) :=
  .of_eq ((Meaning.evaluate_succ bound id _).trans ends)
    ((Meaning.evaluate_succ bound idAgain _).trans endsAgain) recurs

theorem recurs_exhausted
    {enough : Prop}
    (never : ¬enough) :
    Recurs machine gap (machine.move gap) enough arrays (throw .exhausted) (throw .exhausted) :=
  ⟨.error .exhausted, #[], fun holds => absurd holds never, by rw [Array.append_empty]; rfl,
    by rw [Array.append_empty]; rfl⟩

/-- Work on the values of two parts recurs if the evaluation of each part does. -/
theorem recurs_both
    {bound height otherHeight : Nat}
    {first second firstAgain secondAgain : Run Value}
    {work again : Value → Value → Run Value}
    (isFirst : Recurs machine gap (machine.move gap) (height < bound) arrays first firstAgain)
    (isSecond : ∀ further, Recurs machine gap (machine.move gap) (otherHeight < bound)
      (arrays ++ further) second secondAgain)
    (joined : ∀ value other further, Recurs machine gap (machine.move gap)
      (max height otherHeight + 1 < bound + 1) further (work value other)
      (again (machine.move gap value) (machine.move gap other))) :
    Recurs machine gap (machine.move gap) (max height otherHeight + 1 < bound + 1) arrays
      (first >>= fun value => second >>= work value)
      (firstAgain >>= fun value => secondAgain >>= again value) :=
  (isFirst.mono fun enough => by omega).bind fun value further =>
    ((isSecond further).mono fun enough => by omega).bind fun other _ => joined value other _

mutual

/-- Wherever a calm expression stands, its evaluation recurs. -/
theorem recurs_evaluate
    (closed : machine.store.Closed) :
    ∀ {expression : Expression} {bound : Nat} {arrays : Array (Array Value)}
      {id idAgain : Option Tree.NodeId}, expression.isCalm = true →
      expression.rose.StandsAt (machine.adding arrays).arena id →
      expression.rose.StandsAt (machine.addingAfter gap arrays).arena idAgain →
      Recurs machine gap (machine.move gap) (expression.height < bound) arrays
        ((Run.within bound).evaluate id) ((Run.within bound).evaluate idAgain)
  | expression, 0, arrays, id, idAgain, _, _, _ => recurs_exhausted (Nat.not_lt_zero _)
  | .constant token value, bound + 1, arrays, id, idAgain, _, stands, standsAgain => by
      have same : machine.move gap (.ofConstant value) = .ofConstant value := by
        cases value <;> rfl
      refine (Recurs.pure (.ofConstant value)).of_evaluateNode
        (Meaning.evaluateNode_constant _ stands) ?_
      rw [same]
      exact Meaning.evaluateNode_constant _ standsAgain
  | .mention name, bound + 1, arrays, id, idAgain, _, stands, standsAgain =>
      (recurs_valueOf closed name).of_evaluateNode (Meaning.evaluateNode_mention _ stands)
        (Meaning.evaluateNode_mention _ standsAgain)
  | .group _ inner, bound + 1, arrays, id, idAgain, calm, stands, standsAgain => by
      obtain ⟨below, atBelow, ends⟩ := Meaning.evaluateNode_group (Run.within bound) stands
      obtain ⟨belowAgain, atAgain, endsAgain⟩ :=
        Meaning.evaluateNode_group (Run.within bound) standsAgain
      rw [Expression.isCalm] at calm
      refine .of_evaluateNode ((recurs_evaluate closed calm atBelow atAgain).mono fun enough => ?_)
        ends endsAgain
      rw [Expression.height] at enough
      omega
  | .array _ items, bound + 1, arrays, id, idAgain, calm, stands, standsAgain => by
      obtain ⟨ids, atIds, ends⟩ := Meaning.evaluateNode_array (Run.within bound) stands
      obtain ⟨idsAgain, atAgain, endsAgain⟩ :=
        Meaning.evaluateNode_array (Run.within bound) standsAgain
      rw [Expression.isCalm] at calm
      refine .of_evaluateNode (((recurs_values closed calm atIds atAgain).mono
        fun enough => ?_).bind fun elements _ => ?_) ends endsAgain
      · rw [Expression.height] at enough
        omega
      · rw [← List.map_toArray]
        exact recurs_newArray elements.toArray
  | .unary operator operand, bound + 1, arrays, id, idAgain, calm, stands, standsAgain => by
      obtain ⟨below, atBelow, ends⟩ := Meaning.evaluateNode_unary (Run.within bound) stands
      obtain ⟨belowAgain, atAgain, endsAgain⟩ :=
        Meaning.evaluateNode_unary (Run.within bound) standsAgain
      rw [Expression.isCalm] at calm
      refine .of_evaluateNode (((recurs_evaluate closed calm atBelow atAgain).mono
        fun enough => ?_).bind fun value _ => recurs_unaryValue operator value) ends endsAgain
      rw [Expression.height] at enough
      omega
  | .binary operator left right, bound + 1, arrays, id, idAgain, calm, stands, standsAgain => by
      obtain ⟨first, second, atFirst, atSecond, ends⟩ :=
        Meaning.evaluateNode_binary (Run.within bound) stands
      obtain ⟨firstAgain, secondAgain, firstAtAgain, secondAtAgain, endsAgain⟩ :=
        Meaning.evaluateNode_binary (Run.within bound) standsAgain
      rw [Expression.isCalm, Bool.and_eq_true] at calm
      exact .of_evaluateNode
        (recurs_both (recurs_evaluate closed calm.1 atFirst firstAtAgain)
          (fun _ => recurs_evaluate closed calm.2 atSecond secondAtAgain)
          fun leftValue rightValue _ => recurs_binaryValue closed operator leftValue rightValue)
        ends endsAgain
  | .logical operator left right, bound + 1, arrays, id, idAgain, calm, stands, standsAgain => by
      obtain ⟨first, second, atFirst, atSecond, ends⟩ :=
        Meaning.evaluateNode_logical (Run.within bound) stands
      obtain ⟨firstAgain, secondAgain, firstAtAgain, secondAtAgain, endsAgain⟩ :=
        Meaning.evaluateNode_logical (Run.within bound) standsAgain
      rw [Expression.isCalm, Bool.and_eq_true] at calm
      refine .of_evaluateNode (((recurs_evaluate closed calm.1 atFirst firstAtAgain).mono
        fun enough => ?_).bind fun value further => ?_) ends endsAgain
      · rw [Expression.height] at enough
        omega
      · have same : Meaning.decides operator (machine.move gap value) =
            Meaning.decides operator value := by
          simp only [Meaning.decides, Value.isTruthy_moved]
        rw [same]
        split
        · exact .pure value
        · refine .mono (fun enough => ?_) (recurs_evaluate closed calm.2 atSecond secondAtAgain)
          rw [Expression.height] at enough
          omega
  | .assignment _ _, _ + 1, _, _, _, calm, _, _ => nomatch calm
  | .call _ _ _, _ + 1, _, _, _, calm, _, _ => nomatch calm
  | .index bracket target position, bound + 1, arrays, id, idAgain, calm, stands, standsAgain => by
      obtain ⟨first, second, atFirst, atSecond, ends⟩ :=
        Meaning.evaluateNode_index (Run.within bound) stands
      obtain ⟨firstAgain, secondAgain, firstAtAgain, secondAtAgain, endsAgain⟩ :=
        Meaning.evaluateNode_index (Run.within bound) standsAgain
      rw [Expression.isCalm, Bool.and_eq_true] at calm
      exact .of_evaluateNode
        (recurs_both (recurs_evaluate closed calm.1 atFirst firstAtAgain)
          (fun _ => recurs_evaluate closed calm.2 atSecond secondAtAgain)
          fun array place _ => recurs_elementAt closed bracket array place)
        ends endsAgain

/-- Wherever calm expressions stand, their evaluation from left to right recurs. -/
theorem recurs_values
    (closed : machine.store.Closed) :
    ∀ {expressions : List Expression} {bound : Nat} {arrays : Array (Array Value)}
      {ids idsAgain : List (Option Tree.NodeId)}, Expression.areCalm expressions = true →
      AllStandAt (machine.adding arrays).arena (Expression.roses expressions) ids →
      AllStandAt (machine.addingAfter gap arrays).arena (Expression.roses expressions) idsAgain →
      Recurs machine gap (List.map (machine.move gap)) (Expression.heights expressions < bound)
        arrays (values (Run.within bound) ids) (values (Run.within bound) idsAgain)
  | [], bound, arrays, ids, idsAgain, _, stand, standAgain => by
      rw [Expression.roses_nil, Tree.Rose.allStandAt_nil] at stand standAgain
      rw [stand, standAgain]
      exact .pure []
  | expression :: others, bound, arrays, ids, idsAgain, calm, stand, standAgain => by
      rw [Expression.roses_cons] at stand standAgain
      obtain ⟨id, rest, rfl, atId, atRest⟩ := (Tree.Rose.allStandAt_cons ..).mp stand
      obtain ⟨idAgain, restAgain, rfl, atAgain, restAtAgain⟩ :=
        (Tree.Rose.allStandAt_cons ..).mp standAgain
      rw [Expression.areCalm, Bool.and_eq_true] at calm
      refine ((recurs_evaluate closed calm.1 atId atAgain).mono fun enough => ?_).bind
        fun value _ =>
          .bind (.mono (fun enough => ?_) (recurs_values closed calm.2 atRest restAtAgain))
            fun found _ => .pure (value :: found)
      all_goals
        rw [Expression.heights] at enough
        omega

end

end Evaluation

/-- Wherever a calm expression stands, its evaluation adds arrays and does nothing else, whether
it ends with a value or with a fault, and within a bound above the height of the expression it
ends with one of the two. Evaluated again on the machine that has been left, the expression ends
with the same fault, or with the same value but for the numbers of the added arrays: what has
been added is added once more, behind a gap, and the rest of the store is the same. So the two
values have the same text.

The store is closed in every session, see `Session.Reachable.closed`. -/
theorem Run.evaluateWithin_again
    {machine : Machine}
    (closed : machine.store.Closed)
    {expression : Tree.Expression}
    (calm : expression.isCalm = true)
    {id : Option Tree.NodeId}
    (stands : expression.rose.StandsAt machine.arena id)
    (bound : Nat) :
    ∃ outcome arrays,
      let after := machine.adding arrays
      let last := machine.addingAfter arrays arrays
      let moved := Value.moved machine.store.arrays.size arrays.size
      evaluateWithin bound id machine = ends outcome after ∧
      evaluateWithin bound id after = ends (outcome.map moved) last ∧
      (expression.height < bound → outcome ≠ .error .exhausted) ∧
      Store.Renumbers machine.store.arrays.size arrays.size after.store last.store ∧
      ∀ value, outcome = .ok value → last.store.text (moved value) = after.store.text value := by
  have recurs (gap : Array (Array Value)) : Recurs machine gap (machine.move gap)
      (expression.height < bound) #[] (evaluateWithin bound id) (evaluateWithin bound id) :=
    recurs_evaluate closed calm stands stands
  obtain ⟨outcome, arrays, bounded, once, -⟩ := recurs #[]
  -- The first evaluation leaves the gap behind which the second one adds its arrays.
  obtain ⟨same, added, -, onceMore, twice⟩ := recurs arrays
  simp only [Machine.adding_empty, Machine.addingAfter_empty, Array.empty_append] at *
  obtain ⟨rfl, sameMachine⟩ := ends_injective (once.symm.trans onceMore)
  obtain rfl := Machine.adding_injective sameMachine
  have renumbers := Machine.renumbers_addingAfter closed arrays arrays
  exact ⟨outcome, arrays, once, twice, bounded, renumbers, fun value _ =>
    renumbers.text_moved value⟩

/-- The literal of an array with one element adds a new array each time. -/
theorem Run.evaluateWithin_again_of_array :
    let bracket := Token.placeless .rightBracket "]"
    let null := Token.placeless (.keyword .nullWord) "null"
    let literal := Tree.Expression.array bracket [.constant null .null]
    let machine : Machine :=
      { Machine.bare (.ofFiles ⟨[]⟩ []) with
        arena := (Tree.Arena.empty.add ⟨.constant, null, some .null, []⟩).add
          ⟨.array, bracket, none, [some 0]⟩ }
    machine.store.Closed ∧ literal.isCalm = true ∧
      literal.rose.StandsAt machine.arena (some 1) ∧
      evaluateWithin 2 (some 1) machine = .ok (.array 0) (machine.adding #[#[.null]]) ∧
      evaluateWithin 2 (some 1) (machine.adding #[#[.null]]) =
        .ok (.array 1) (machine.adding #[#[.null], #[.null]]) := by
  intro bracket null literal machine
  have closed : machine.store.Closed := Store.closed_fresh
  have stands : literal.rose.StandsAt machine.arena (some 1) := by
    simp only [literal, Tree.Expression.rose, Tree.Expression.roses_cons,
      Tree.Expression.roses_nil]
    refine (Tree.Rose.standsAt_node ..).mpr ⟨1, [some 0], rfl, rfl, ?_⟩
    refine (Tree.Rose.allStandAt_singleton ..).mpr ⟨some 0, rfl, ?_⟩
    exact (Tree.Rose.standsAt_node ..).mpr ⟨0, [], rfl, rfl, (Tree.Rose.allStandAt_nil _).mpr rfl⟩
  have once : evaluateWithin 2 (some 1) machine =
      ends (.ok (.array 0)) (machine.adding #[#[.null]]) := rfl
  obtain ⟨outcome, arrays, first, second, -⟩ := evaluateWithin_again closed rfl stands 2
  refine ⟨closed, rfl, stands, once, ?_⟩
  obtain ⟨rfl, same⟩ := ends_injective (once.symm.trans first)
  obtain rfl := Machine.adding_injective same
  refine second.trans ?_
  simp [ends, Except.map, Machine.addingAfter, Value.moved, ArrayId.moved, machine, Machine.bare,
    Store.fresh]

end Scripting
