import Scripting.Proofs.Running.Histories

/-!
# Calls

A call expression evaluates what it calls and the arguments, and when all of this has succeeded
and the arguments are as many as they should be (`Steps.Readies`), it begins the call, if one
call more may be active.  Steps that evaluate alike make a difference in nothing but the call.

Main statements: `Steps.Begins.exists_readies`, `Steps.Readies.callNode_eq`.
-/

namespace Scripting

open Tree (Node)

/-- What is called and the arguments have been evaluated, one after the other, and there are
as many arguments as there should be. -/
structure Steps.Readies
    (steps : Steps)
    (node : Node)
    (machine : Machine)
    (callable : Callable)
    (arguments : Array Value)
    (ready : Machine) : Prop where
  evaluated : ∃ place between,
    steps.evaluate (node.child 0) machine = .ok (.callable place) between ∧
      steps.evaluateAll node.children.tail #[] between = .ok arguments ready ∧
      ready.store.callable? place = some callable
  arity : arguments.size = callable.arity

theorem Steps.evaluateAll_congr
    {steps other : Steps}
    (same : other.evaluate = steps.evaluate)
    (ids : List (Option Tree.NodeId))
    (values : Array Value) :
    other.evaluateAll ids values = steps.evaluateAll ids values := by
  induction ids generalizing values with
  | nil => rfl
  | cons id others inductionHypothesis =>
      simp only [Steps.evaluateAll, same, inductionHypothesis]

/-- Steps that call a function differently differ in what is done in the call. -/
theorem Steps.exists_of_callFound_ne
    {steps other : Steps}
    {paren : Token}
    {arguments : Array Value}
    {found : Option Callable}
    {machine : Machine}
    (differs : other.callFound paren arguments found machine ≠
      steps.callFound paren arguments found machine) :
    ∃ callable ∈ found, arguments.size = callable.arity ∧
      other.call callable arguments.toList { machine with depth := machine.depth + 1 } ≠
        steps.call callable arguments.toList { machine with depth := machine.depth + 1 } := by
  cases found with
  | none => exact absurd rfl differs
  | some callable =>
      rw [Steps.callFound_some, Steps.callFound_some] at differs
      split at differs
      · exact absurd rfl differs
      split at differs
      · exact absurd rfl differs
      next arity _ =>
      exact ⟨callable, rfl, not_not.mp arity,
        fun same => differs (congrArg (Run.callEnd paren) same)⟩

/-- Steps that evaluate alike, but not a call, differ in what is done in the call, when what
is called and the arguments have been evaluated. -/
theorem Steps.exists_of_callNode_ne
    {steps other : Steps}
    (evaluate : other.evaluate = steps.evaluate)
    {node : Node}
    {machine : Machine}
    (differs : other.callNode node machine ≠ steps.callNode node machine) :
    ∃ callable values later, steps.Readies node machine callable values later ∧
      other.call callable values.toList { later with depth := later.depth + 1 } ≠
        steps.call callable values.toList { later with depth := later.depth + 1 } := by
  have evaluateAll := Steps.evaluateAll_congr evaluate
  unfold Steps.callNode at differs
  rw [evaluate] at differs
  simp only [evaluateAll] at differs
  cases first : steps.evaluate (node.child 0) machine with
  | error interrupt between => simp only [Run.bind_of_error first, ne_eq, not_true] at differs
  | ok target between =>
      simp only [Run.bind_of_ok first] at differs
      cases second : steps.evaluateAll node.children.tail #[] between with
      | error interrupt last => simp only [Run.bind_of_error second, ne_eq, not_true] at differs
      | ok values later =>
          simp only [Run.bind_of_ok second, Steps.callValue_eq] at differs
          cases target with
          | callable place =>
              obtain ⟨callable, stored, arity, differs⟩ := Steps.exists_of_callFound_ne differs
              exact ⟨callable, values, later, ⟨⟨place, between, first, second, stored⟩, arity⟩,
                differs⟩
          | _ => exact absurd rfl differs

/-- A call expression that readies a call calls, if one call more may be active. -/
theorem Steps.Readies.callNode_eq
    {steps : Steps}
    {node : Node}
    {machine ready : Machine}
    {callable : Callable}
    {arguments : Array Value}
    (readies : steps.Readies node machine callable arguments ready)
    (room : ready.depth < ready.limit) :
    steps.callNode node machine = Run.callEnd node.token
      (steps.call callable arguments.toList { ready with depth := ready.depth + 1 }) := by
  obtain ⟨⟨place, between, first, second, stored⟩, arity⟩ := readies
  have looks : Run.callableAt? place ready = .ok (some callable) ready := by
    rw [Run.callableAt?, stored]
  rw [Steps.callNode, Run.bind_of_ok first, Run.bind_of_ok second, Steps.callValue_eq]
  dsimp only
  rw [Run.bind_of_ok looks, Steps.callFound_some, if_neg (not_not.mpr arity),
    if_neg (Nat.not_le_of_lt room)]

/-- A function is called when it and its arguments have been evaluated. -/
theorem Steps.Begins.exists_readies
    {steps : Steps}
    {node : Node}
    {machine : Machine}
    {links : List Link}
    {link : Link}
    {callable : Callable}
    {arguments : List Value}
    (begins : steps.Begins (fun steps => steps.callNode node machine) links)
    (member : link ∈ links)
    (calls : link.moment.errand = .call callable arguments) :
    ∃ values ready, values.toList = arguments ∧
      steps.Readies node machine callable values ready ∧
      link.moment.machine = { ready with depth := ready.depth + 1 } := by
  obtain ⟨alarm, differs⟩ := begins.exists_alarm member
  -- An alarm at the call makes no difference before it.
  have evaluate : (steps.stoppedAt link.moment alarm).evaluate = steps.evaluate := by
    funext id machine
    have isOther : Moment.mk (.evaluate id) machine ≠ link.moment := fun same => by
      rw [← same] at calls
      cases calls
    exact steps.outcome_stoppedAt_of_ne alarm isOther
  obtain ⟨called, values, ready, readies, differs⟩ := Steps.exists_of_callNode_ne evaluate differs
  have same : Moment.mk (.call called values.toList) { ready with depth := ready.depth + 1 } =
      link.moment :=
    Classical.byContradiction fun other => differs (steps.outcome_stoppedAt_of_ne alarm other)
  rw [← same] at calls ⊢
  cases calls
  exact ⟨values, ready, rfl, readies, rfl⟩

theorem Steps.Begins.readies
    {steps : Steps}
    {node : Node}
    {machine later : Machine}
    {callable : Callable}
    {arguments : List Value}
    {links : List Link}
    (begins : steps.Begins (fun steps => steps.callNode node machine) links)
    (member : Link.ofCall node.token later callable arguments ∈ links) :
    ∃ values, values.toList = arguments ∧ steps.Readies node machine callable values later := by
  obtain ⟨values, ready, given, readies, same⟩ := begins.exists_readies member rfl
  let before (machine : Machine) : Machine := { machine with depth := machine.depth - 1 }
  obtain rfl : later = ready := congrArg before same
  exact ⟨values, given, readies⟩

theorem Moment.work_call
    {id : Option Tree.NodeId}
    {machine : Machine}
    {node : Node}
    (found : machine.arena.node? id = some node)
    (kind : node.kind = .call)
    (rounds : Nat) :
    Moment.work ⟨.evaluate id, machine⟩ rounds = fun steps => steps.callNode node machine := by
  funext steps
  change { steps with rounds := rounds }.evaluateNode id machine = _
  unfold Steps.evaluateNode
  rw [Run.bind_of_ok (Run.node?_of_eq found)]
  simp only [kind]
  have evaluateAll : ∀ ids values,
      Steps.evaluateAll { steps with rounds := rounds } ids values = steps.evaluateAll ids values :=
    Steps.evaluateAll_congr rfl
  unfold Steps.callNode
  simp only [evaluateAll]
  rfl

end Scripting
