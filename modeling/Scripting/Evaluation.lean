import Scripting.Builtin
import Scripting.Decimal.Whole

/-!
# Evaluation

What the nodes of a program mean.  An expression is evaluated to a value, a
statement is executed, and a function is called; each rule is written once, in
terms of the `Steps` by which it goes on.

Operands, elements and arguments are evaluated from left to right, and all of them
before anything is asked of their values.  A block and a call each run in a scope
of their own.  A `return` ends blocks and loops up to the call it belongs to.

A node of the wrong kind is not an error: a statement in the place of an
expression is executed and gives null, and an expression in the place of a
statement is evaluated.
-/

namespace Scripting

open Run (fail)

namespace Steps

variable (steps : Steps)

/-- Evaluates nodes from left to right, adding their values to those already there. -/
def evaluateAll : List (Option Tree.NodeId) → Array Value → Run (Array Value)
  | [], values => return values
  | id :: others, values => do
      let value ← steps.evaluate id
      evaluateAll others (values.push value)

/-- Executes statements in turn, up to one that gives back a value. -/
def executeAll : List (Option Tree.NodeId) → Run Flow
  | [] => return .normal
  | id :: others => do
      match ← steps.execute id with
      | .returning value => return .returning value
      | .normal => executeAll others

/-- An operand decides an `or` if it counts as true, and an `and` if it does not. A
decided operand is the value, and the other one is not evaluated. -/
def logical (node : Tree.Node) : Run Value := do
  let left ← steps.evaluate (node.child 0)
  let decided := match node.token.kind with
    | .keyword .orWord => left.isTruthy
    | _ => !left.isTruthy
  if decided then return left
  else steps.evaluate (node.child 1)

/-- The value of an operator applied to one operand. -/
def unaryValue (operator : Token) (operand : Value) : Run Value := do
  match operator.kind with
  | .minus =>
      match operand with
      | .number value => return .number (-value)
      | _ => fail .operandNotNumber operator
  | .bang => return .bool !operand.isTruthy
  | _ => return .null

/-- The two numbers that an operator needs. -/
def numbers (operator : Token) (left right : Value) : Run (Float × Float) := do
  match left, right with
  | .number left, .number right => return (left, right)
  | _, _ => fail .operandsNotNumbers operator

/-- The sum of two numbers, or the texts of two values one after the other if one of
them is a text. -/
def sum (operator : Token) (left right : Value) : Run Value := do
  match left, right with
  | .number left, .number right => return .number (left + right)
  | .text _, _ | _, .text _ =>
      let leftText ← Run.textOf left
      let rightText ← Run.textOf right
      return .text (leftText ++ rightText)
  | _, _ => fail .operandsNotAddable operator

/-- The quotient of two numbers. -/
def quotient (operator : Token) (left right : Value) : Run Value := do
  let (dividend, divisor) ← numbers operator left right
  if divisor == 0.0 then fail .divisionByZero operator
  else return .number (dividend / divisor)

/-- The value of an operator applied to two operands. -/
def binaryValue (operator : Token) (left right : Value) : Run Value := do
  match operator.kind with
  | .equalEqual => return .bool (left.same right)
  | .bangEqual => return .bool !(left.same right)
  | .plus => sum operator left right
  | .minus =>
      let (a, b) ← numbers operator left right
      return .number (a - b)
  | .star =>
      let (a, b) ← numbers operator left right
      return .number (a * b)
  | .slash => quotient operator left right
  | .greater =>
      let (a, b) ← numbers operator left right
      return .bool (decide (b < a))
  | .greaterEqual =>
      let (a, b) ← numbers operator left right
      return .bool (decide (b ≤ a))
  | .less =>
      let (a, b) ← numbers operator left right
      return .bool (decide (a < b))
  | .lessEqual =>
      let (a, b) ← numbers operator left right
      return .bool (decide (a ≤ b))
  | _ => return .null

/-- The element of an array at a position, which is the whole part of a number. -/
def elementAt (bracket : Token) (target position : Value) : Run Value := do
  match target with
  | .array id =>
      match position with
      | .number number =>
          let items ← Run.elementsOf id
          let index := Decimal.wholePart number
          match index, items[index.toNat]? with
          | .ofNat _, some item => return item
          | _, _ => fail (.indexOutOfBounds index items.size) bracket
      | _ => fail .indexNotNumber bracket
  | _ => fail (.notIndexable target.typeName) bracket

/-- Calls a value with the right number of arguments. -/
def callValue (paren : Token) (target : Value) (arguments : Array Value) : Run Value := do
  let callable? ← match target with
    | .callable id => Run.callableAt? id
    | _ => pure none
  match callable? with
  | none => fail .notCallable paren
  | some callable =>
      if arguments.size ≠ callable.arity then
        fail (.wrongArity callable.arity arguments.size) paren
      else
        let machine ← get
        if machine.limit ≤ machine.depth then fail .callsTooDeep paren
        else Run.inCall paren (steps.call callable arguments.toList)

/-- Evaluates the function and the arguments of a call, and calls. -/
def callNode (node : Tree.Node) : Run Value := do
  let target ← steps.evaluate (node.child 0)
  let arguments ← steps.evaluateAll node.children.tail #[]
  steps.callValue node.token target arguments

/-- Evaluates an expression. -/
def evaluateNode (id : Option Tree.NodeId) : Run Value := do
  match ← Run.node? id with
  | none => return .null
  | some node =>
      match node.kind with
      | .constant => return Value.ofConstant? node.constant
      | .group => steps.evaluate (node.child 0)
      | .variable => Run.valueOf node.token
      | .assignment =>
          let value ← steps.evaluate (node.child 0)
          Run.assign node.token value
          return value
      | .logical => steps.logical node
      | .unary =>
          let operand ← steps.evaluate (node.child 0)
          unaryValue node.token operand
      | .binary =>
          let left ← steps.evaluate (node.child 0)
          let right ← steps.evaluate (node.child 1)
          binaryValue node.token left right
      | .call => steps.callNode node
      | .array =>
          let items ← steps.evaluateAll node.children #[]
          Run.newArray items
      | .index =>
          let target ← steps.evaluate (node.child 0)
          let position ← steps.evaluate (node.child 1)
          elementAt node.token target position
      | .parameter => return .null
      | .statements | .declaration | .echo | .discard | .block | .branch | .loop | .function
      | .giveBack =>
          let _ ← steps.execute id
          return .null

/-- Executes the body of a loop as long as its condition counts as true. -/
def executeLoop (node : Tree.Node) : (rounds : Nat) → Run Flow
  | 0 => throw .exhausted
  | rounds + 1 => do
      let condition ← steps.evaluate (node.child 0)
      if condition.isTruthy then
        match ← steps.execute (node.child 1) with
        | .returning value => return .returning value
        | .normal => executeLoop node rounds
      else return .normal

/-- The names of the parameters of a function. -/
def parameterNames (node : Tree.Node) : Run (List String) := fun machine =>
  .ok (node.parameters.filterMap fun id => (machine.arena.node? id).map Tree.Node.name) machine

/-- Declares a function in the current scope. -/
def declareFunction (node : Tree.Node) : Run Flow := do
  let parameters ← parameterNames node
  let closure := (← get).scope
  let function ← Run.newCallable
    (.function { name := node.name, parameters, body := node.body, closure })
  Run.define node.name function
  return .normal

/-- Ends a function with a value. -/
def giveBack (node : Tree.Node) : Run Flow := do
  let machine ← get
  if machine.depth = machine.base then fail .returnOutsideFunction node.token
  else
    let value ← steps.evaluate (node.child 0)
    return .returning value

/-- Executes the statements of a block in a scope of its own. -/
def executeBlock (outer : Scope) (bindings : List (String × Value)) (node : Tree.Node) :
    Run Flow := do
  let scope ← Run.newScope outer bindings
  Run.inScope scope (steps.executeAll node.children)

/-- Executes a statement. -/
def executeNode (id : Option Tree.NodeId) : Run Flow := do
  match ← Run.node? id with
  | none => return .normal
  | some node =>
      match node.kind with
      | .statements => steps.executeAll node.children
      | .declaration =>
          let value ← steps.evaluate (node.child 0)
          Run.define node.name value
          return .normal
      | .echo =>
          let value ← steps.evaluate (node.child 0)
          let text ← Run.textOf value
          Run.write (text ++ "\n") node.token
          return .normal
      | .discard =>
          let _ ← steps.evaluate (node.child 0)
          return .normal
      | .block =>
          let scope := (← get).scope
          steps.executeBlock scope [] node
      | .branch =>
          let condition ← steps.evaluate (node.child 0)
          if condition.isTruthy then steps.execute (node.child 1)
          else steps.execute (node.child 2)
      | .loop => steps.executeLoop node steps.rounds
      | .function => declareFunction node
      | .giveBack => steps.giveBack node
      | .parameter | .constant | .group | .unary | .binary | .logical | .variable | .assignment
      | .call | .array | .index =>
          let _ ← steps.evaluate id
          return .normal

/-- Calls a function that a program declared: its body runs inside the scope of the
declaration, with the parameters bound to the arguments. -/
def callFunction (function : Function) (arguments : List Value) : Run Value := do
  match ← Run.node? function.body with
  | none => return .null
  | some body =>
      match ← steps.executeBlock function.closure (function.parameters.zip arguments) body with
      | .returning value => return value
      | .normal => return .null

/-- Calls a function. -/
def callCallable (callable : Callable) (arguments : List Value) : Run Value :=
  match callable with
  | .function declared => steps.callFunction declared arguments
  | .builtin given => Builtin.perform steps given arguments

end Steps

/-! ## Running with a bound

Every step hands a smaller bound to the steps by which it goes on.  The bound
limits how deep these are nested and how often a loop goes round, not how many
steps there are in all. -/

namespace Run

mutual

/-- Evaluates an expression within a bound. -/
def evaluateWithin : (bound : Nat) → Option Tree.NodeId → Run Value
  | 0, _ => throw .exhausted
  | bound + 1, id => fun machine =>
      atLevel bound fun _ =>
        Steps.evaluateNode
          ⟨bound, evaluateWithin bound, executeWithin bound, callWithin bound⟩ id machine

/-- Executes a statement within a bound. -/
def executeWithin : (bound : Nat) → Option Tree.NodeId → Run Flow
  | 0, _ => throw .exhausted
  | bound + 1, id => fun machine =>
      atLevel bound fun _ =>
        Steps.executeNode
          ⟨bound, evaluateWithin bound, executeWithin bound, callWithin bound⟩ id machine

/-- Calls a function within a bound. -/
def callWithin : (bound : Nat) → Callable → List Value → Run Value
  | 0, _, _ => throw .exhausted
  | bound + 1, callable, arguments => fun machine =>
      atLevel bound fun _ =>
        Steps.callCallable
          ⟨bound, evaluateWithin bound, executeWithin bound, callWithin bound⟩
          callable arguments machine

end

/-- The steps within a bound. -/
def within (bound : Nat) : Steps :=
  ⟨bound, evaluateWithin bound, executeWithin bound, callWithin bound⟩

/-- A bound that no run on any computer uses up. -/
def ample : Nat := levelsFor (Nat.pow 10 18)

/-- Evaluates an expression. -/
def evaluate (id : Option Tree.NodeId) : Run Value :=
  evaluateWithin ample id

/-- Executes a statement. -/
def execute (id : Option Tree.NodeId) : Run Flow :=
  executeWithin ample id

/-- Executes a program that has been read. -/
def interpret (root : Tree.NodeId) : Run Unit :=
  interpretWith (within ample) root

/-- Reads a source and, if it has no faults, executes it; gives the faults found. -/
def source (text : String) : Run (List Fault) :=
  sourceWith (within ample) text

end Run

namespace Machine

/-- Binds a name in the global scope. -/
def defineGlobal (machine : Machine) (name : String) (value : Value) : Machine :=
  { machine with store := machine.store.define Scope.global name value }

/-- Adds a built-in function under its name. -/
def addBuiltin (machine : Machine) (builtin : Builtin) : Machine :=
  let id := machine.store.nextCallable
  let store := machine.store.addCallable (.builtin builtin)
  { machine with store := store.define Scope.global builtin.name (.callable id) }

/-- A machine on which nothing has run, without any functions. -/
def bare (host : Host) : Machine where
  arena := Tree.Arena.empty
  store := Store.fresh
  scope := Scope.global
  depth := 0
  base := 0
  limit := defaultLimit
  libraries := []
  host := host

/-- A new machine. -/
def ofHost (host : Host) : Machine :=
  Builtin.standard.foldl addBuiltin (bare host)

end Machine
end Scripting
