import Scripting.Proofs.Running.Frame

/-!
# Running at the top level

At the top level of a program there is no function to return from, so no statement
there gives back a value (`settles_within`), and the statements of a program are
executed one after the other up to the first fault (`Run.statements_append`).
-/

namespace Scripting

variable {α β : Type}

/-- Where there is no function to return from, the work gives back no value. -/
def Settles (work : Run Flow) : Prop :=
  ∀ (machine later : Machine) (flow : Flow),
    machine.depth = machine.base → work machine = .ok flow later → flow = .normal

namespace Settles

theorem normal : Settles (pure .normal) := by
  rintro machine later flow - ended
  cases ended
  rfl

theorem interrupted (interrupt : Interrupt) : Settles (throw interrupt) := by
  rintro machine later flow - ended
  cases ended

/-- What comes before does not change where the work is. -/
theorem bind_of_ok
    {work : Run α}
    {next : α → Run Flow}
    (follows : Course.later.Follows work)
    (settles : ∀ {machine between : Machine} {value : α},
      machine.depth = machine.base → work machine = .ok value between → Settles (next value)) :
    Settles (work >>= next) := by
  intro machine later flow top ended
  have course := follows machine
  cases equation : work machine with
  | ok value between =>
      rw [equation] at course
      rw [Run.bind_of_ok equation] at ended
      apply settles top equation between later flow ?_ ended
      exact (course.depth.trans top).trans course.base.symm
  | error interrupt between =>
      rw [Run.bind_of_error equation] at ended
      cases ended

theorem bind
    {work : Run α}
    {next : α → Run Flow}
    (follows : Course.later.Follows work)
    (settles : ∀ value, Settles (next value)) :
    Settles (work >>= next) :=
  bind_of_ok follows fun _ _ => settles _

/-- What comes after work that settles is that after a normal end. -/
theorem bind_normal
    {work : Run Flow}
    {next : Flow → Run Flow}
    (follows : Course.later.Follows work)
    (first : Settles work)
    (second : Settles (next .normal)) :
    Settles (work >>= next) := by
  apply bind_of_ok follows
  intro machine between flow top ended
  obtain rfl := first machine between flow top ended
  exact second

theorem inScope
    {work : Run Flow}
    (settles : Settles work)
    (scope : Scope) :
    Settles (Run.inScope scope work) := by
  intro machine later flow top ended
  unfold Run.inScope at ended
  cases equation : work { machine with scope := scope } with
  | ok value between =>
      simp only [equation, EStateM.Result.ok.injEq] at ended
      obtain ⟨rfl, -⟩ := ended
      exact settles { machine with scope := scope } _ _ top equation
  | error interrupt between =>
      simp only [equation] at ended
      cases ended

end Settles

namespace Steps

variable {steps : Steps}

section Statements

variable
  (follows : Course.later.StepsFollow steps)
  (settle : ∀ id, Settles (steps.execute id))

include follows settle

/-- A statement that settles is followed by statements that settle. -/
theorem settles_executeAll (ids : List (Option Tree.NodeId)) : Settles (steps.executeAll ids) := by
  induction ids with
  | nil => exact .normal
  | cons id others inductionHypothesis =>
      exact .bind_normal (follows.execute id) (settle id) inductionHypothesis

theorem settles_executeLoop (node : Tree.Node) (rounds : Nat) :
    Settles (steps.executeLoop node rounds) := by
  induction rounds with
  | zero => exact .interrupted _
  | succ rounds inductionHypothesis =>
      refine .bind (follows.evaluate _) fun condition => ?_
      split
      · exact .bind_normal (follows.execute _) (settle _) inductionHypothesis
      · exact .normal

omit follows settle in
/-- Where there is no function to return from, a `return` is a fault. -/
theorem settles_giveBack (node : Tree.Node) : Settles (steps.giveBack node) := by
  intro machine later flow top ended
  have fails :
      steps.giveBack node machine = Run.fail .returnOutsideFunction node.token machine := by
    change (if machine.depth = machine.base then _ else _ : Run Flow) machine = _
    rw [if_pos top]
  rw [fails] at ended
  cases ended

theorem settles_executeNode (id : Option Tree.NodeId) : Settles (steps.executeNode id) := by
  refine .bind (Course.Follows.node? id) fun found => ?_
  cases found with
  | none => exact .normal
  | some node =>
      dsimp only
      split
      · exact settles_executeAll follows settle _
      · exact .bind (follows.evaluate _) fun value =>
          .bind (Course.Follows.define _ value) fun _ => .normal
      · exact .bind (follows.evaluate _) fun value =>
          .bind (Course.Follows.textOf value) fun text =>
            .bind (Course.Follows.write _ _) fun _ => .normal
      · exact .bind (follows.evaluate _) fun _ => .normal
      · exact .bind Course.Follows.get fun machine =>
          .bind (Course.Follows.newScope _ _) fun scope =>
            (settles_executeAll follows settle _).inScope scope
      · refine .bind (follows.evaluate _) fun condition => ?_
        split <;> exact settle _
      · exact settles_executeLoop follows settle node _
      · have names : Course.later.Follows (parameterNames node) :=
          fun machine => Course.later.refl machine
        exact .bind names fun parameters => .bind Course.Follows.get fun machine =>
          .bind (Course.Follows.newCallable _) fun function =>
            .bind (Course.Follows.define _ function) fun _ => .normal
      · exact settles_giveBack node
      all_goals exact .bind (follows.evaluate id) fun _ => .normal

end Statements

/-- Statements in two parts are executed part by part. -/
theorem executeAll_append (ids others : List (Option Tree.NodeId)) :
    steps.executeAll (ids ++ others) = (do
      match ← steps.executeAll ids with
      | .returning value => return .returning value
      | .normal => steps.executeAll others) := by
  induction ids with
  | nil => rfl
  | cons id rest inductionHypothesis =>
      simp only [List.cons_append, executeAll, inductionHypothesis, bind_assoc]
      congr 1
      funext flow
      cases flow <;> simp

end Steps

/-- No statement gives back a value where there is no function to return from. -/
theorem settles_within (bound : Nat) (id : Option Tree.NodeId) :
    Settles ((Run.within bound).execute id) := by
  induction bound generalizing id with
  | zero => exact .interrupted _
  | succ bound inductionHypothesis =>
      intro machine later flow top ended
      simp only [Run.within, Run.executeWithin, atLevel_eq] at ended
      exact Steps.settles_executeNode (Course.later.follows_within bound) inductionHypothesis id
        _ _ _ top ended

/-- What a `return` does depends on whether there is a function to return from. -/
theorem Run.execute_giveBack
    {machine : Machine}
    {id : Option Tree.NodeId}
    {node : Tree.Node}
    (found : machine.arena.node? id = some node)
    (kind : node.kind = .giveBack)
    (bound : Nat) :
    (within (bound + 1)).execute id machine =
      if machine.depth = machine.base then
        .error (.fault (Fault.atToken .returnOutsideFunction node.token)) machine
      else (do
        let value ← (within bound).evaluate (node.child 0)
        return Flow.returning value) machine := by
  rw [within_succ]
  change (within bound).executeNode id machine = _
  unfold Steps.executeNode
  rw [bind_of_ok (node?_of_eq found)]
  simp only [kind]
  change (if machine.depth = machine.base then _ else _ : Run Flow) machine = _
  split <;> rfl

/-! ## Programs -/

namespace Run

/-- The bound within which the statements of a program are executed. -/
def enough : Nat := ample - 1

/-- Executes the statements of a program in turn. -/
def statements (ids : List (Option Tree.NodeId)) : Run Flow :=
  (within enough).executeAll ids

/-- To execute a program is to execute the statements below its root in the global
scope. -/
theorem interpret_of_root
    {root : Tree.NodeId}
    {machine : Machine}
    {token : Token}
    {ids : List (Option Tree.NodeId)}
    (found : machine.arena.get? root = some ⟨.statements, token, none, ids⟩) :
    interpret root machine =
      leave machine.scope machine.base
        (statements ids { machine with scope := Scope.global, base := machine.depth }) := by
  have execution : (within ample).execute (some root)
        { machine with scope := Scope.global, base := machine.depth } =
      statements ids { machine with scope := Scope.global, base := machine.depth } := by
    have succ : ample = enough + 1 := rfl
    rw [succ]
    simp only [within, executeWithin, atLevel_eq, Steps.executeNode, Bind.bind, EStateM.bind,
      node?, Tree.Arena.node?]
    rw [found]
    rfl
  rw [interpret, interpretWith_eq, execution]

/-- Statements in two parts, executed where there is no function to return from. -/
theorem statements_append
    {machine : Machine}
    (top : machine.depth = machine.base)
    (ids others : List (Option Tree.NodeId)) :
    statements (ids ++ others) machine =
      match statements ids machine with
      | .ok _ between => statements others between
      | .error interrupt between => .error interrupt between := by
  unfold statements
  rw [Steps.executeAll_append]
  simp only [Bind.bind, EStateM.bind]
  cases equation : (within enough).executeAll ids machine with
  | ok flow between =>
      obtain rfl := Steps.settles_executeAll (Course.later.follows_within enough)
        (settles_within enough) ids machine between flow top equation
      rfl
  | error interrupt between => rfl

/-- A statement that is absent does nothing. -/
theorem statements_none_cons (ids : List (Option Tree.NodeId)) (machine : Machine) :
    statements (none :: ids) machine = statements ids machine := by
  have absent : (within enough).execute none machine = .ok .normal machine := by
    have succ : enough = (ample - 2) + 1 := rfl
    rw [succ]
    simp only [within, executeWithin, atLevel_eq]
    rfl
  rw [statements, Steps.executeAll, Run.bind_of_ok absent]
  rfl

/-- Where one of the statements is absent, those before it are executed and then those
behind it. -/
theorem statements_around_none
    {machine : Machine}
    (top : machine.depth = machine.base)
    (ids others : List (Option Tree.NodeId)) :
    statements (ids ++ none :: others) machine =
      (do
        let _ ← statements ids
        statements others) machine := by
  rw [statements_append top]
  cases equation : statements ids machine with
  | ok flow between =>
      rw [bind_of_ok equation]
      exact statements_none_cons others between
  | error interrupt between => rw [bind_of_error equation]

/-- Whatever statements do, they leave a later machine. -/
theorem later_statements (ids : List (Option Tree.NodeId)) (machine : Machine) :
    machine.Later (machineAfter (statements ids machine)) :=
  Course.Follows.executeAll (Course.later.follows_within enough) ids machine

end Run
end Scripting
