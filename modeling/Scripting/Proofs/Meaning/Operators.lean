import Scripting.Proofs.Meaning.Represents
import Scripting.Proofs.Running.Course

/-!
# Operators on machines

A machine that stands for a state computes what the operators mean in that state, and
it calls what the state says is called.
-/

namespace Scripting
namespace Meaning

variable {context : Context} {state : State} {machine : Machine}

theorem ended_unaryValue (operator : Token) (operand : Value) :
    Steps.unaryValue operator operand machine = ended (unaryValue operator operand) machine := by
  unfold Steps.unaryValue unaryValue
  generalize operator.kind = kind
  cases kind with
  | minus => cases operand <;> rfl
  | _ => rfl

/-- Two numbers are asked for before anything is made of them. -/
theorem ended_ofNumbers
    (operator : Token)
    (left right : Value)
    (value : Float → Float → Value) :
    (Steps.numbers operator left right >>= fun pair => pure (value pair.1 pair.2) : Run Value)
        machine =
      ended (ofNumbers operator left right value) machine := by
  unfold Steps.numbers ofNumbers
  cases left with
  | number left => cases right <;> rfl
  | _ => rfl

theorem ended_quotient (operator : Token) (left right : Value) :
    Steps.quotient operator left right machine = ended (quotient operator left right) machine := by
  unfold Steps.quotient Steps.numbers quotient
  cases left with
  | number dividend =>
      cases right with
      | number divisor =>
          simp only [pure_bind]
          split <;> rfl
      | _ => rfl
  | _ => rfl

theorem ended_sum
    (represents : Represents context state machine)
    (operator : Token)
    (left right : Value) :
    Steps.sum operator left right machine = ended (sum state operator left right) machine := by
  have texts : (do
        let leftText ← Run.textOf left
        let rightText ← Run.textOf right
        return Value.text (leftText ++ rightText) : Run Value) machine =
      ended (.ok (.text (state.text left ++ state.text right))) machine := by
    rw [← represents.text_eq left, ← represents.text_eq right]
    rfl
  unfold Steps.sum sum
  cases left with
  | text left => exact texts
  | number left =>
      cases right with
      | text right => exact texts
      | _ => rfl
  | _ =>
      cases right with
      | text right => exact texts
      | _ => rfl

theorem ended_binaryValue
    (represents : Represents context state machine)
    (operator : Token)
    (left right : Value) :
    Steps.binaryValue operator left right machine =
      ended (binaryValue state operator left right) machine := by
  unfold Steps.binaryValue binaryValue
  generalize operator.kind = kind
  cases kind with
  | plus => exact ended_sum represents operator left right
  | slash => exact ended_quotient operator left right
  | minus => exact ended_ofNumbers operator left right fun a b => .number (a - b)
  | star => exact ended_ofNumbers operator left right fun a b => .number (a * b)
  | greater => exact ended_ofNumbers operator left right fun a b => .bool (decide (b < a))
  | greaterEqual => exact ended_ofNumbers operator left right fun a b => .bool (decide (b ≤ a))
  | less => exact ended_ofNumbers operator left right fun a b => .bool (decide (a < b))
  | lessEqual => exact ended_ofNumbers operator left right fun a b => .bool (decide (a ≤ b))
  | _ => rfl

theorem ended_elementAt
    (represents : Represents context state machine)
    (bracket : Token)
    (target position : Value) :
    Steps.elementAt bracket target position machine =
      ended (elementAt state bracket target position) machine := by
  unfold Steps.elementAt elementAt
  cases target with
  | array id =>
      cases position with
      | number number =>
          simp only [Bind.bind, EStateM.bind, Run.elementsOf, represents.elements_eq]
          generalize Decimal.wholePart number = index
          generalize (state.elements id)[index.toNat]? = item
          cases index with
          | ofNat index => cases item <;> rfl
          | negSucc index => rfl
      | _ => rfl
  | _ => rfl

/-! ## Calls -/

/-- On the machine, a function is found in the same places. -/
theorem callValue_eq_callFound
    (represents : Represents context state machine)
    (steps : Steps)
    (paren : Token)
    (target : Value)
    (arguments : Array Value) :
    ∃ found, Option.Rel (Denotes machine.arena) found (state.function? target) ∧
      steps.callValue paren target arguments machine =
        steps.callFound paren arguments found machine := by
  rw [Steps.callValue_eq]
  cases target with
  | callable id => exact ⟨machine.store.callable? id, represents.functions id, rfl⟩
  | _ => exact ⟨none, .none, rfl⟩

/-- A value that is not called is blamed as its meaning says. -/
theorem callValue_of_error
    (represents : Represents context state machine)
    (steps : Steps)
    {paren : Token}
    {target : Value}
    {values : List Value}
    {fault : Fault}
    (uncalled : callee state context paren target values.length = .error fault) :
    steps.callValue paren target values.toArray machine = ended (.error fault) machine := by
  obtain ⟨found, denotes, equation⟩ :=
    callValue_eq_callFound represents steps paren target values.toArray
  rw [equation]
  unfold callee at uncalled
  generalize state.function? target = definition? at denotes uncalled
  cases denotes with
  | none =>
      cases uncalled
      rfl
  | @some callable definition denotes =>
      simp only [Steps.callFound, List.size_toArray, denotes.arity_eq]
      dsimp only at uncalled
      split at uncalled
      next wrong =>
        cases uncalled
        rw [if_pos wrong]
        rfl
      next right =>
        rw [if_neg right]
        split at uncalled
        next deep =>
          cases uncalled
          change (if machine.limit ≤ machine.depth then _ else _ : Run Value) machine = _
          rw [represents.limit_eq, represents.depth_eq, if_pos deep]
          rfl
        next => cases uncalled

/-- A value that is called stands for the function that its meaning says. -/
theorem callValue_of_ok
    (represents : Represents context state machine)
    (steps : Steps)
    {paren : Token}
    {target : Value}
    {values : List Value}
    {definition : Definition}
    (called : callee state context paren target values.length = .ok definition) :
    ∃ callable, Denotes machine.arena callable definition ∧
      steps.callValue paren target values.toArray machine =
        Run.inCall paren (steps.call callable values) machine := by
  obtain ⟨found, denotes, equation⟩ :=
    callValue_eq_callFound represents steps paren target values.toArray
  rw [equation]
  unfold callee at called
  generalize state.function? target = definition? at denotes called
  cases denotes with
  | none => cases called
  | @some callable found denotes =>
      dsimp only at called
      split at called
      next => cases called
      next right =>
        split at called
        next => cases called
        next shallow =>
          cases called
          refine ⟨callable, denotes, ?_⟩
          simp only [Steps.callFound, List.size_toArray, denotes.arity_eq]
          rw [if_neg right]
          change (if machine.limit ≤ machine.depth then _ else _ : Run Value) machine = _
          rw [represents.limit_eq, represents.depth_eq, if_neg shallow]

end Meaning
end Scripting
