import Scripting.Proofs.Decimal.Exact
import Scripting.Proofs.Meaning.Nodes

/-!
# Elements at positions

A number selects the element of an array at its whole part, and every number whose whole part
is no position in the array is refused, however large or small it is.  The whole part of a
number too large for 64 bits is cut off at the end of their range, which no position reaches.
What is not a number has no whole part, but it is not refused: it selects the first element.

Main statement: `Run.evaluateWithin_index`.
-/

namespace Scripting

variable {machine : Machine} {array : ArrayId} {number : Float}

/-- The element at the whole part of a number, if the array has such a position. -/
theorem Steps.elementAt_of_lt
    (bracket : Token)
    {place : Nat}
    (inside : place < (machine.store.elements array).size)
    (selects : Decimal.wholePart number = place) :
    Steps.elementAt bracket (.array array) (.number number) machine =
      .ok (machine.store.elements array)[place] machine := by
  have found := Array.getElem?_eq_getElem inside
  unfold Steps.elementAt
  simp only [Bind.bind, EStateM.bind, Run.elementsOf, selects, Int.toNat_natCast, found]
  rfl

/-- A fault if the array has no position that is the whole part of the number. -/
theorem Steps.elementAt_of_ne
    (bracket : Token)
    (outside : ∀ place < (machine.store.elements array).size, Decimal.wholePart number ≠ place) :
    Steps.elementAt bracket (.array array) (.number number) machine =
      .error (.fault (Fault.atToken (.indexOutOfBounds (Decimal.wholePart number)
        (machine.store.elements array).size) bracket)) machine := by
  unfold Steps.elementAt
  simp only [Bind.bind, EStateM.bind, Run.elementsOf]
  generalize Decimal.wholePart number = index at outside ⊢
  cases index with
  | negSucc below => rfl
  | ofNat place =>
      have beyond : (machine.store.elements array)[place]? = none := by
        rw [Array.getElem?_eq_none_iff]
        exact Nat.le_of_not_lt fun inside => outside place inside rfl
      simp only [Int.ofNat_eq_natCast, Int.toNat_natCast, beyond]
      rfl

namespace Decimal

/-- A number that is not beyond the integers of 64 bits has its whole part at a position exactly
when the program finds it there. -/
theorem wholePart_eq_iff
    (isNumber : number.isNaN = false)
    {place : Nat}
    (below : (place : Int) < greatestWhole) :
    wholePart number = place ↔ whole? number = some (place : Int) := by
  have bounds : leastWhole < 0 ∧ 0 < greatestWhole := by decide
  unfold whole?
  cases isRational : rational? number with
  | some value =>
      rw [wholePart_eq_of_rational? isRational, Option.map_some, Option.some.injEq]
      generalize leastWhole = least, greatestWhole = greatest at bounds below ⊢
      omega
  | none =>
      have whole := wholePart_of_rational?_eq_none isNumber isRational
      generalize leastWhole = least, greatestWhole = greatest at bounds below whole
      refine iff_of_false ?_ (by simp)
      omega

end Decimal

namespace Run

variable {middle last : Machine} {bound : Nat} {id : Option Tree.NodeId} {node : Tree.Node}

theorem evaluateWithin_of_index
    (found : machine.arena.node? id = some node)
    (isIndex : node.kind = .index)
    {target position : Value}
    (first : evaluateWithin bound (node.child 0) machine = .ok target middle)
    (second : evaluateWithin bound (node.child 1) middle = .ok position last) :
    evaluateWithin (bound + 1) id machine = Steps.elementAt node.token target position last := by
  have entered : evaluateWithin (bound + 1) id machine =
      (within bound).evaluateNode id machine := Meaning.evaluate_succ bound id machine
  cases id with
  | none => contradiction
  | some index =>
      rw [entered]
      refine (Meaning.node?_bind found _).trans ?_
      simp only [isIndex]
      exact (bind_of_ok first).trans (bind_of_ok second)

/-- An indexing whose operands are an array and a number has the element at the whole part of
the number as its value, if the array has this position, and ends in a fault otherwise; infinite
numbers have no whole part. Nothing else happens in either case. The first element is also the
value if the position is not a number.

The positions of an array in memory are always less than the greatest integer of 64 bits. -/
theorem evaluateWithin_index
    (found : machine.arena.node? id = some node)
    (isIndex : node.kind = .index)
    (target : evaluateWithin bound (node.child 0) machine = .ok (.array array) middle)
    (position : evaluateWithin bound (node.child 1) middle = .ok (.number number) last)
    (fits : (last.store.elements array).size ≤ Decimal.greatestWhole) :
    let items := last.store.elements array
    let result := evaluateWithin (bound + 1) id machine
    let cause := Cause.indexOutOfBounds (Decimal.wholePart number) items.size
    let refused := EStateM.Result.error (.fault (Fault.atToken cause node.token)) last
    (number.isNaN = false →
      (∀ place, ∀ inside : place < items.size, Decimal.whole? number = some (place : Int) →
        result = .ok items[place] last) ∧
      ((∀ place < items.size, Decimal.whole? number ≠ some (place : Int)) → result = refused)) ∧
    (number.isNaN = true →
      (∀ nonempty : 0 < items.size, result = .ok items[0] last) ∧
      (items.size = 0 → result = refused)) := by
  intro items result cause refused
  have indexed : result = Steps.elementAt node.token (.array array) (.number number) last :=
    evaluateWithin_of_index found isIndex target position
  rw [indexed]
  constructor
  · intro isNumber
    have whole {place : Nat} (inside : place < items.size) :=
      Decimal.wholePart_eq_iff isNumber (Int.lt_of_lt_of_le (Int.ofNat_lt.mpr inside) fits)
    refine ⟨fun place inside selects => ?_, fun none => ?_⟩
    · exact Steps.elementAt_of_lt _ inside ((whole inside).mpr selects)
    · exact Steps.elementAt_of_ne _ fun place inside selects =>
        none place inside ((whole inside).mp selects)
  · intro isNone
    have zero : Decimal.wholePart number = (0 : Nat) := Decimal.wholePart_of_isNaN isNone
    refine ⟨fun nonempty => Steps.elementAt_of_lt _ nonempty zero, fun empty => ?_⟩
    exact Steps.elementAt_of_ne _ fun place inside =>
      absurd inside (empty ▸ Nat.not_lt_zero place)

/-- The fraction of a number does not count. -/
theorem evaluateWithin_index_of_fraction :
    let number := Decimal.ofDigits ['1'] ['9']
    let bracket := Token.placeless .rightBracket "]"
    let node : Tree.Node := ⟨.index, bracket, none, [some 2, some 3]⟩
    let machine : Machine :=
      { Machine.bare (.ofFiles ⟨[]⟩ []) with
        arena := ⟨#[⟨.constant, .placeless (.keyword .nullWord) "null", some .null, []⟩,
          ⟨.constant, .placeless (.keyword .trueWord) "true", some (.bool true), []⟩,
          ⟨.array, .placeless .leftBracket "[", none, [some 0, some 1]⟩,
          ⟨.constant, .placeless .number "1.9", some (.number number), []⟩, node]⟩ }
    let last := { machine with store := machine.store.addArray #[.null, .bool true] }
    machine.arena.node? (some 4) = some node ∧ node.kind = .index ∧
      evaluateWithin 2 (node.child 0) machine = .ok (.array 0) last ∧
      evaluateWithin 2 (node.child 1) last = .ok (.number number) last ∧
      (last.store.elements 0).size ≤ Decimal.greatestWhole ∧
      number.isNaN = false ∧ Decimal.whole? number = some 1 ∧
      evaluateWithin 3 (some 4) machine = .ok (.bool true) last := by
  intro number bracket node machine last
  have found : machine.arena.node? (some 4) = some node := rfl
  have target : evaluateWithin 2 (node.child 0) machine = .ok (.array 0) last := rfl
  have position : evaluateWithin 2 (node.child 1) last = .ok (.number number) last := rfl
  have fits : ((last.store.elements 0).size : Int) ≤ Decimal.greatestWhole := by decide
  have isNumber : number.isNaN = false := by decide +kernel
  have whole : Decimal.whole? number = some ((1 : Nat) : Int) := by
    refine (Decimal.wholePart_eq_iff isNumber ?_).mp ?_ <;> decide +kernel
  obtain ⟨selects, -⟩ := evaluateWithin_index found rfl target position fits
  exact ⟨found, rfl, target, position, fits, isNumber, whole,
    (selects isNumber).1 1 (by decide) whole⟩

/-- The difference of two infinite numbers has no whole part and selects the first element. -/
theorem evaluateWithin_index_of_no_number :
    let large := Decimal.ofDigits ('1' :: List.replicate 309 '0') []
    let node : Tree.Node := ⟨.index, .placeless .rightBracket "]", none, [some 1, some 3]⟩
    let machine : Machine :=
      { Machine.bare (.ofFiles ⟨[]⟩ []) with
        arena := ⟨#[⟨.constant, .placeless (.keyword .nullWord) "null", some .null, []⟩,
          ⟨.array, .placeless .leftBracket "[", none, [some 0]⟩,
          ⟨.constant, .placeless .number "", some (.number large), []⟩,
          ⟨.binary, .placeless .minus "-", none, [some 2, some 2]⟩, node]⟩ }
    let last := { machine with store := machine.store.addArray #[.null] }
    machine.arena.node? (some 4) = some node ∧ node.kind = .index ∧
      evaluateWithin 2 (node.child 0) machine = .ok (.array 0) last ∧
      evaluateWithin 2 (node.child 1) last = .ok (.number (large - large)) last ∧
      Decimal.whole? (large - large) = none ∧
      evaluateWithin 3 (some 4) machine = .ok .null last := by
  intro large node machine last
  have isNone : (large - large).isNaN = true := by decide +kernel
  have noWhole : Decimal.whole? (large - large) = none := Decimal.whole?_of_isNaN isNone
  have found : machine.arena.node? (some 4) = some node := rfl
  have target : evaluateWithin 2 (node.child 0) machine = .ok (.array 0) last := rfl
  have position : evaluateWithin 2 (node.child 1) last = .ok (.number (large - large)) last := rfl
  have indexed := evaluateWithin_of_index found rfl target position
  refine ⟨found, rfl, target, position, noWhole, indexed.trans ?_⟩
  exact Steps.elementAt_of_lt _ (by decide) (Decimal.wholePart_of_isNaN isNone)

end Run
end Scripting
