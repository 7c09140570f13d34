import Scripting.Proofs.Meaning.State
import Scripting.Proofs.Reading.Programs

/-!
# Evaluation where phrases stand

One equation for every kind of phrase: what the steps do at an index where the phrase
stands, in terms of what they do where its parts stand.
-/

namespace Scripting
namespace Meaning

open Tree (Expression Statement)
open Tree.Rose (AllStandAt standsAt_node standsAt_absent allStandAt_nil allStandAt_cons
  allStandAt_singleton allStandAt_pair allStandAt_append)

variable {α : Type} {machine : Machine} {index : Tree.NodeId} {id : Option Tree.NodeId}

/-- Evaluates nodes from left to right. -/
def values (steps : Steps) : List (Option Tree.NodeId) → Run (List Value)
  | [] => return []
  | id :: others => do
      let value ← steps.evaluate id
      let rest ← values steps others
      return value :: rest

theorem evaluateAll_eq (steps : Steps) (ids : List (Option Tree.NodeId)) (before : Array Value) :
    steps.evaluateAll ids before = (do
      let rest ← values steps ids
      return before ++ rest.toArray) := by
  induction ids generalizing before with
  | nil => simp [Steps.evaluateAll, values]
  | cons id others inductionHypothesis =>
      simp only [Steps.evaluateAll, values, inductionHypothesis, bind_assoc, pure_bind]
      congr 1
      funext value
      congr 1
      funext rest
      simp

/-- What comes after a node that is found. -/
theorem node?_bind
    {node : Tree.Node}
    (found : machine.arena.get? index = some node)
    (next : Option Tree.Node → Run α) :
    (Run.node? (some index) >>= next) machine = next (some node) machine := by
  have same : Run.node? (some index) machine = .ok (some node) machine :=
    congrArg (EStateM.Result.ok · machine) found
  exact Run.bind_of_ok same

variable (steps : Steps)

/-! ## Expressions -/

theorem evaluateNode_constant
    {token : Token}
    {value : Tree.Constant}
    (stands : (Expression.constant token value).rose.StandsAt machine.arena id) :
    steps.evaluateNode id machine = .ok (.ofConstant value) machine := by
  rw [Expression.rose, standsAt_node] at stands
  obtain ⟨index, ids, rfl, found, -⟩ := stands
  exact node?_bind found _

theorem evaluateNode_mention
    {name : Token}
    (stands : (Expression.mention name).rose.StandsAt machine.arena id) :
    steps.evaluateNode id machine = Run.valueOf name machine := by
  rw [Expression.rose, standsAt_node] at stands
  obtain ⟨index, ids, rfl, found, -⟩ := stands
  exact node?_bind found _

theorem evaluateNode_group
    {paren : Token}
    {inner : Expression}
    (stands : (Expression.group paren inner).rose.StandsAt machine.arena id) :
    ∃ below, inner.rose.StandsAt machine.arena below ∧
      steps.evaluateNode id machine = steps.evaluate below machine := by
  rw [Expression.rose, standsAt_node] at stands
  obtain ⟨index, ids, rfl, found, children⟩ := stands
  obtain ⟨below, rfl, atBelow⟩ := (allStandAt_singleton ..).mp children
  exact ⟨below, atBelow, node?_bind found _⟩

theorem evaluateNode_array
    {bracket : Token}
    {items : List Expression}
    (stands : (Expression.array bracket items).rose.StandsAt machine.arena id) :
    ∃ ids, AllStandAt machine.arena (Expression.roses items) ids ∧
      steps.evaluateNode id machine = (do
        let elements ← values steps ids
        Run.newArray elements.toArray) machine := by
  rw [Expression.rose, standsAt_node] at stands
  obtain ⟨index, ids, rfl, found, children⟩ := stands
  refine ⟨ids, children, (node?_bind found _).trans ?_⟩
  dsimp only
  rw [evaluateAll_eq, bind_assoc]
  simp only [pure_bind, Array.empty_append]

theorem evaluateNode_unary
    {operator : Token}
    {operand : Expression}
    (stands : (Expression.unary operator operand).rose.StandsAt machine.arena id) :
    ∃ below, operand.rose.StandsAt machine.arena below ∧
      steps.evaluateNode id machine =
        (steps.evaluate below >>= Steps.unaryValue operator) machine := by
  rw [Expression.rose, standsAt_node] at stands
  obtain ⟨index, ids, rfl, found, children⟩ := stands
  obtain ⟨below, rfl, atBelow⟩ := (allStandAt_singleton ..).mp children
  exact ⟨below, atBelow, node?_bind found _⟩

theorem evaluateNode_binary
    {operator : Token}
    {left right : Expression}
    (stands : (Expression.binary operator left right).rose.StandsAt machine.arena id) :
    ∃ first second, left.rose.StandsAt machine.arena first ∧
      right.rose.StandsAt machine.arena second ∧
      steps.evaluateNode id machine = (do
        let leftValue ← steps.evaluate first
        let rightValue ← steps.evaluate second
        Steps.binaryValue operator leftValue rightValue) machine := by
  rw [Expression.rose, standsAt_node] at stands
  obtain ⟨index, ids, rfl, found, children⟩ := stands
  obtain ⟨first, second, rfl, atFirst, atSecond⟩ := (allStandAt_pair ..).mp children
  exact ⟨first, second, atFirst, atSecond, node?_bind found _⟩

theorem evaluateNode_logical
    {operator : Token}
    {left right : Expression}
    (stands : (Expression.logical operator left right).rose.StandsAt machine.arena id) :
    ∃ first second, left.rose.StandsAt machine.arena first ∧
      right.rose.StandsAt machine.arena second ∧
      steps.evaluateNode id machine = (do
        let value ← steps.evaluate first
        if decides operator value then return value else steps.evaluate second) machine := by
  rw [Expression.rose, standsAt_node] at stands
  obtain ⟨index, ids, rfl, found, children⟩ := stands
  obtain ⟨first, second, rfl, atFirst, atSecond⟩ := (allStandAt_pair ..).mp children
  exact ⟨first, second, atFirst, atSecond, node?_bind found _⟩

theorem evaluateNode_assignment
    {name : Token}
    {expression : Expression}
    (stands : (Expression.assignment name expression).rose.StandsAt machine.arena id) :
    ∃ below, expression.rose.StandsAt machine.arena below ∧
      steps.evaluateNode id machine = (do
        let value ← steps.evaluate below
        Run.assign name value
        return value) machine := by
  rw [Expression.rose, standsAt_node] at stands
  obtain ⟨index, ids, rfl, found, children⟩ := stands
  obtain ⟨below, rfl, atBelow⟩ := (allStandAt_singleton ..).mp children
  exact ⟨below, atBelow, node?_bind found _⟩

theorem evaluateNode_call
    {paren : Token}
    {function : Expression}
    {arguments : List Expression}
    (stands : (Expression.call paren function arguments).rose.StandsAt machine.arena id) :
    ∃ first others, function.rose.StandsAt machine.arena first ∧
      AllStandAt machine.arena (Expression.roses arguments) others ∧
      steps.evaluateNode id machine = (do
        let target ← steps.evaluate first
        let given ← values steps others
        steps.callValue paren target given.toArray) machine := by
  rw [Expression.rose, standsAt_node] at stands
  obtain ⟨index, ids, rfl, found, children⟩ := stands
  obtain ⟨first, others, rfl, atFirst, atOthers⟩ := (allStandAt_cons ..).mp children
  refine ⟨first, others, atFirst, atOthers, (node?_bind found _).trans ?_⟩
  change steps.callNode _ machine = _
  unfold Steps.callNode
  simp only [evaluateAll_eq, bind_assoc, pure_bind, Array.empty_append]
  rfl

theorem evaluateNode_index
    {bracket : Token}
    {target position : Expression}
    (stands : (Expression.index bracket target position).rose.StandsAt machine.arena id) :
    ∃ first second, target.rose.StandsAt machine.arena first ∧
      position.rose.StandsAt machine.arena second ∧
      steps.evaluateNode id machine = (do
        let targetValue ← steps.evaluate first
        let positionValue ← steps.evaluate second
        Steps.elementAt bracket targetValue positionValue) machine := by
  rw [Expression.rose, standsAt_node] at stands
  obtain ⟨index, ids, rfl, found, children⟩ := stands
  obtain ⟨first, second, rfl, atFirst, atSecond⟩ := (allStandAt_pair ..).mp children
  exact ⟨first, second, atFirst, atSecond, node?_bind found _⟩

/-! ## Statements -/

theorem executeNode_declaration
    {name : Token}
    {initializer : Option Expression}
    (stands : (Statement.declaration name initializer).rose.StandsAt machine.arena id) :
    ∃ below, (Expression.optionalRose initializer).StandsAt machine.arena below ∧
      steps.executeNode id machine = (do
        let value ← steps.evaluate below
        Run.define name.lexeme value
        return Flow.normal) machine := by
  rw [Statement.rose, standsAt_node] at stands
  obtain ⟨index, ids, rfl, found, children⟩ := stands
  obtain ⟨below, rfl, atBelow⟩ := (allStandAt_singleton ..).mp children
  exact ⟨below, atBelow, node?_bind found _⟩

theorem executeNode_echo
    {keyword : Token}
    {expression : Expression}
    (stands : (Statement.echo keyword expression).rose.StandsAt machine.arena id) :
    ∃ below, expression.rose.StandsAt machine.arena below ∧
      steps.executeNode id machine = (do
        let value ← steps.evaluate below
        let text ← Run.textOf value
        Run.write (text ++ "\n") keyword
        return Flow.normal) machine := by
  rw [Statement.rose, standsAt_node] at stands
  obtain ⟨index, ids, rfl, found, children⟩ := stands
  obtain ⟨below, rfl, atBelow⟩ := (allStandAt_singleton ..).mp children
  exact ⟨below, atBelow, node?_bind found _⟩

theorem executeNode_discard
    {semicolon : Token}
    {expression : Expression}
    (stands : (Statement.discard semicolon expression).rose.StandsAt machine.arena id) :
    ∃ below, expression.rose.StandsAt machine.arena below ∧
      steps.executeNode id machine =
        (steps.evaluate below >>= fun _ => pure .normal) machine := by
  rw [Statement.rose, standsAt_node] at stands
  obtain ⟨index, ids, rfl, found, children⟩ := stands
  obtain ⟨below, rfl, atBelow⟩ := (allStandAt_singleton ..).mp children
  exact ⟨below, atBelow, node?_bind found _⟩

/-- Executes statements in a fresh scope, in which names are bound. -/
def executeInside (outer : Scope) (bindings : List (String × Value))
    (ids : List (Option Tree.NodeId)) : Run Flow := do
  let scope ← Run.newScope outer bindings
  Run.inScope scope (steps.executeAll ids)

theorem executeNode_block
    {brace : Token}
    {body : List Statement}
    (stands : (Statement.block brace body).rose.StandsAt machine.arena id) :
    ∃ ids, AllStandAt machine.arena (Statement.roses body) ids ∧
      steps.executeNode id machine = executeInside steps machine.scope [] ids machine := by
  rw [Statement.rose, standsAt_node] at stands
  obtain ⟨index, ids, rfl, found, children⟩ := stands
  exact ⟨ids, children, node?_bind found _⟩

theorem executeNode_branch
    {keyword : Token}
    {condition : Expression}
    {consequence : Statement}
    (stands : (Statement.branch keyword condition consequence).rose.StandsAt machine.arena id) :
    ∃ first second, condition.rose.StandsAt machine.arena first ∧
      consequence.rose.StandsAt machine.arena second ∧
      steps.executeNode id machine = (do
        let value ← steps.evaluate first
        if value.isTruthy then steps.execute second else steps.execute none) machine := by
  rw [Statement.rose, standsAt_node] at stands
  obtain ⟨index, ids, rfl, found, children⟩ := stands
  obtain ⟨first, others, rfl, atFirst, rest⟩ := (allStandAt_cons ..).mp children
  obtain ⟨second, third, rfl, atSecond, absent⟩ := (allStandAt_pair ..).mp rest
  obtain rfl := (standsAt_absent _).mp absent
  exact ⟨first, second, atFirst, atSecond, node?_bind found _⟩

theorem executeNode_choice
    {keyword : Token}
    {condition : Expression}
    {consequence alternative : Statement}
    (stands : (Statement.choice keyword condition consequence alternative).rose.StandsAt
      machine.arena id) :
    ∃ first second third, condition.rose.StandsAt machine.arena first ∧
      consequence.rose.StandsAt machine.arena second ∧
      alternative.rose.StandsAt machine.arena third ∧
      steps.executeNode id machine = (do
        let value ← steps.evaluate first
        if value.isTruthy then steps.execute second else steps.execute third) machine := by
  rw [Statement.rose, standsAt_node] at stands
  obtain ⟨index, ids, rfl, found, children⟩ := stands
  obtain ⟨first, others, rfl, atFirst, rest⟩ := (allStandAt_cons ..).mp children
  obtain ⟨second, third, rfl, atSecond, atThird⟩ := (allStandAt_pair ..).mp rest
  exact ⟨first, second, third, atFirst, atSecond, atThird, node?_bind found _⟩

/-- The node has the condition and the body of a loop below it. -/
structure IsLoop (arena : Tree.Arena) (condition : Expression) (body : Statement)
    (node : Tree.Node) : Prop where
  condition : condition.rose.StandsAt arena (node.child 0)
  body : body.rose.StandsAt arena (node.child 1)

omit steps in
theorem IsLoop.mono
    {arena later : Tree.Arena}
    {condition : Expression}
    {body : Statement}
    {node : Tree.Node}
    (isLoop : IsLoop arena condition body node)
    (before : arena ≤ later) :
    IsLoop later condition body node :=
  ⟨isLoop.condition.mono before, isLoop.body.mono before⟩

theorem executeNode_loop
    {keyword : Token}
    {condition : Expression}
    {body : Statement}
    (stands : (Statement.loop keyword condition body).rose.StandsAt machine.arena id) :
    ∃ node, IsLoop machine.arena condition body node ∧
      steps.executeNode id machine = steps.executeLoop node steps.rounds machine := by
  rw [Statement.rose, standsAt_node] at stands
  obtain ⟨index, ids, rfl, found, children⟩ := stands
  obtain ⟨first, second, rfl, atFirst, atSecond⟩ := (allStandAt_pair ..).mp children
  exact ⟨⟨.loop, keyword, none, [first, second]⟩, ⟨atFirst, atSecond⟩, node?_bind found _⟩

omit steps in
/-- The names of parameters are read off their nodes. -/
theorem filterMap_parameters
    {arena : Tree.Arena}
    {parameters : List Token}
    {ids : List (Option Tree.NodeId)}
    (stand : AllStandAt arena (parameters.map Statement.parameterRose) ids) :
    (ids.filterMap fun id => (arena.node? id).map Tree.Node.name) =
      parameters.map Token.lexeme := by
  induction parameters generalizing ids with
  | nil =>
      obtain rfl := (allStandAt_nil ids).mp stand
      rfl
  | cons name parameters inductionHypothesis =>
      obtain ⟨id, others, rfl, atId, rest⟩ := (allStandAt_cons ..).mp stand
      rw [Statement.parameterRose, standsAt_node] at atId
      obtain ⟨index, below, rfl, found, -⟩ := atId
      have named : (arena.node? (some index)).map Tree.Node.name = some name.lexeme :=
        congrArg (Option.map Tree.Node.name) found
      simp only [List.filterMap_cons, named, inductionHypothesis rest, List.map_cons]

theorem executeNode_function
    {name brace : Token}
    {parameters : List Token}
    {body : List Statement}
    (stands : (Statement.function name parameters brace body).rose.StandsAt machine.arena id) :
    ∃ below,
      (Tree.Rose.node .block brace none (Statement.roses body)).StandsAt machine.arena below ∧
      steps.executeNode id machine = (do
        let function ← Run.newCallable
          (.function ⟨name.lexeme, parameters.map Token.lexeme, below, machine.scope⟩)
        Run.define name.lexeme function
        return Flow.normal) machine := by
  rw [Statement.rose, standsAt_node] at stands
  obtain ⟨index, ids, rfl, found, children⟩ := stands
  obtain ⟨names, bodies, rfl, atNames, atBodies⟩ := (allStandAt_append ..).mp children
  obtain ⟨below, rfl, atBelow⟩ := (allStandAt_singleton ..).mp atBodies
  refine ⟨below, atBelow, (node?_bind found _).trans ?_⟩
  have named : Steps.parameterNames ⟨.function, name, none, names ++ [below]⟩ machine =
      .ok (parameters.map Token.lexeme) machine := by
    unfold Steps.parameterNames Tree.Node.parameters
    rw [List.dropLast_concat, filterMap_parameters atNames]
  have last : Tree.Node.body ⟨.function, name, none, names ++ [below]⟩ = below := by
    simp [Tree.Node.body]
  change Steps.declareFunction _ machine = _
  unfold Steps.declareFunction
  simp only [Bind.bind, EStateM.bind, named, last]
  rfl

theorem executeNode_giveBack
    {keyword : Token}
    {value : Option Expression}
    (stands : (Statement.giveBack keyword value).rose.StandsAt machine.arena id) :
    ∃ below, (Expression.optionalRose value).StandsAt machine.arena below ∧
      steps.executeNode id machine =
        (if machine.depth = machine.base then Run.fail .returnOutsideFunction keyword
          else steps.evaluate below >>= fun result => pure (.returning result) : Run Flow)
          machine := by
  rw [Statement.rose, standsAt_node] at stands
  obtain ⟨index, ids, rfl, found, children⟩ := stands
  obtain ⟨below, rfl, atBelow⟩ := (allStandAt_singleton ..).mp children
  exact ⟨below, atBelow, node?_bind found _⟩

/-! ## Calls and programs -/

theorem callFunction_eq
    {name : String}
    {parameters : List String}
    {closure : Scope}
    {brace : Token}
    {body : List Statement}
    (stands : (Tree.Rose.node .block brace none (Statement.roses body)).StandsAt machine.arena id)
    (arguments : List Value) :
    ∃ ids, AllStandAt machine.arena (Statement.roses body) ids ∧
      steps.callFunction ⟨name, parameters, id, closure⟩ arguments machine =
        (executeInside steps closure (parameters.zip arguments) ids >>= fun flow =>
          pure (resultOf flow)) machine := by
  rw [standsAt_node] at stands
  obtain ⟨index, ids, rfl, found, children⟩ := stands
  refine ⟨ids, children, (node?_bind found _).trans ?_⟩
  dsimp only
  refine congrArg (fun next => (executeInside steps closure _ ids >>= next : Run Value) machine) ?_
  funext flow
  cases flow <;> rfl

theorem executeNode_program
    {ending : Token}
    {statements : List Statement}
    (stands : (Tree.programRose ending statements).StandsAt machine.arena id) :
    ∃ ids, AllStandAt machine.arena (Statement.roses statements) ids ∧
      steps.executeNode id machine = steps.executeAll ids machine := by
  rw [Tree.programRose, standsAt_node] at stands
  obtain ⟨index, ids, rfl, found, children⟩ := stands
  exact ⟨ids, children, node?_bind found _⟩

/-! ## Bounds -/

theorem evaluate_succ (bound : Nat) (id : Option Tree.NodeId) (machine : Machine) :
    (Run.within (bound + 1)).evaluate id machine =
      (Run.within bound).evaluateNode id machine := by
  simp only [Run.within, Run.evaluateWithin, atLevel_eq]

theorem execute_succ (bound : Nat) (id : Option Tree.NodeId) (machine : Machine) :
    (Run.within (bound + 1)).execute id machine =
      (Run.within bound).executeNode id machine := by
  simp only [Run.within, Run.executeWithin, atLevel_eq]

theorem call_succ (bound : Nat) (callable : Callable) (arguments : List Value) (machine : Machine) :
    (Run.within (bound + 1)).call callable arguments machine =
      (Run.within bound).callCallable callable arguments machine := by
  simp only [Run.within, Run.callWithin, atLevel_eq]

end Meaning
end Scripting
