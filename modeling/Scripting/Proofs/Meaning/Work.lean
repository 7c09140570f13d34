import Scripting.Proofs.Meaning.Answers
import Scripting.Proofs.Meaning.Nodes
import Scripting.Proofs.Meaning.Operators

/-!
# The work for a task

`Performs` relates each task to the work that a machine does for it where the phrases
of the task stand.  Sources are read without a change of the state (`read_of_accepts`,
`read_faults`).
-/

namespace Scripting
namespace Meaning

open Tree (Arena Expression Statement)
open Tree.Rose (AllStandAt)

variable {α β : Type} {context : Context} {state later : State} {machine : Machine}

/-- The steps do the work for the task, whose phrases stand in the arena. A loop goes
round no more often than it is said. -/
inductive Performs (steps : Steps) (rounds : Nat) (arena : Arena) :
    (task : Task) → Run task.Result → Prop
  | evaluate {expression : Expression} {id : Option Tree.NodeId} :
      expression.rose.StandsAt arena id →
      Performs steps rounds arena (.evaluate expression) (steps.evaluate id)
  | evaluateAll {expressions : List Expression} {ids : List (Option Tree.NodeId)} :
      AllStandAt arena (Expression.roses expressions) ids →
      Performs steps rounds arena (.evaluateAll expressions) (values steps ids)
  | execute {statement : Statement} {id : Option Tree.NodeId} :
      statement.rose.StandsAt arena id →
      Performs steps rounds arena (.execute statement) (steps.execute id)
  | executeAll {statements : List Statement} {ids : List (Option Tree.NodeId)} :
      AllStandAt arena (Statement.roses statements) ids →
      Performs steps rounds arena (.executeAll statements) (steps.executeAll ids)
  | repeating {condition : Expression} {body : Statement} {node : Tree.Node} :
      IsLoop arena condition body node →
      Performs steps rounds arena (.repeating condition body) (steps.executeLoop node rounds)
  | call {definition : Definition} {callable : Callable} (arguments : List Value) :
      Denotes arena callable definition →
      Performs steps rounds arena (.call definition arguments) (steps.call callable arguments)
  | answer (action : Action) (arguments : List Value) :
      Performs steps rounds arena (.answer action arguments)
        (Builtin.answer steps action arguments)
  | program {statements : List Statement} {ending : Token} {root : Tree.NodeId} :
      (Tree.programRose ending statements).StandsAt arena (some root) →
      Performs steps rounds arena (.program statements) (Run.interpretWith steps root)

/-- Work for a task gives the outcome and the state. -/
def Carries (steps : Steps) (rounds : Nat) (task : Task) (context : Context) (state : State)
    (outcome : Except Fault task.Result) (later : State) : Prop :=
  ∀ ⦃machine : Machine⦄ ⦃work : Run task.Result⦄, Represents context state machine →
    Performs steps rounds machine.arena task work → Gives context work machine outcome later

/-! ## What is left out -/

/-- What is left out is null. -/
theorem gives_nothing
    {bound : Nat}
    (represents : Represents context state machine)
    (positive : 0 < bound) :
    Gives context ((Run.within bound).evaluate none) machine (.ok .null) state := by
  cases bound with
  | zero => contradiction
  | succ bound => exact .of_eq (evaluate_succ bound none machine) (.still represents rfl)

/-- A statement that is left out does nothing. -/
theorem gives_normal
    {bound : Nat}
    (represents : Represents context state machine)
    (positive : 0 < bound) :
    Gives context ((Run.within bound).execute none) machine (.ok .normal) state := by
  cases bound with
  | zero => contradiction
  | succ bound => exact .of_eq (execute_succ bound none machine) (.still represents rfl)

/-! ## Reading -/

/-- What is read without faults is a program that stands in the arena. -/
theorem read_of_accepts
    (represents : Represents context state machine)
    {source : String}
    {statements : List Statement}
    (accepted : accepts source = true)
    (derivation : Statement.Derives .declarations (tokensOf source).body [] statements)
    (nearest : Statement.AllElseNearest statements) :
    ∃ root after, Run.readSource source machine = .ok (root, []) after ∧
      Represents context state after ∧ machine.arena ≤ after.arena ∧
      (Tree.programRose (tokensOf source).ending statements).StandsAt after.arena (some root) := by
  obtain ⟨-, before, stands⟩ :=
    Tree.readProgram_of_derives (tokensOf source) derivation nearest machine.arena
  have faultless : (machine.readSource source).1.2 = [] := by
    rw [readSource_faults]
    exact List.isEmpty_iff.mp accepted
  refine ⟨(machine.readSource source).1.1, (machine.readSource source).2, ?_,
    represents.reading before, before, stands⟩
  unfold Run.readSource
  rw [← faultless]

/-- What is read with faults leaves nodes that no function leads to. -/
theorem read_faults
    (represents : Represents context state machine)
    (source : String) :
    ∃ root after, Run.readSource source machine = .ok (root, faultsOf source) after ∧
      Represents context state after ∧ machine.arena ≤ after.arena := by
  have before : machine.arena ≤ (machine.readSource source).2.arena :=
    Tree.le_readProgram _ machine.arena
  refine ⟨(machine.readSource source).1.1, (machine.readSource source).2, ?_,
    represents.reading before, before⟩
  unfold Run.readSource
  rw [← readSource_faults machine source]

section Located

variable {steps : Steps} {found source : String} {root : Tree.NodeId} {after : Machine}

/-- A program without faults is executed. -/
theorem runLocated_of_accepts
    (read : Run.readSource source machine = .ok (root, []) after) :
    runLocated steps (.ok (found, source)) machine =
      (Run.attempt (Run.interpretWith steps root) >>= fun outcome =>
        pure (included found source outcome)) after := by
  unfold runLocated Run.sourceWith
  simp only [Bind.bind, EStateM.bind, read, List.isEmpty_nil, Bool.not_true, Bool.false_eq_true,
    if_false]
  cases Run.attempt (Run.interpretWith steps root) after with
  | ok outcome last => cases outcome <;> rfl
  | error interrupt last => rfl

/-- The faults of a program are the answer. -/
theorem runLocated_of_rejected
    (read : Run.readSource source machine = .ok (root, faultsOf source) after)
    (rejected : accepts source = false) :
    runLocated steps (.ok (found, source)) machine =
      .ok (faulty found (faultsOf source)) after := by
  have faults : (faultsOf source).isEmpty = false := rejected
  unfold runLocated Run.sourceWith
  simp only [Bind.bind, EStateM.bind, read, faults, Bool.not_false, if_true]
  simp only [pure, EStateM.pure, faults, Bool.false_eq_true, if_false]

end Located

end Meaning
end Scripting
