import Scripting.Evaluation
import Scripting.Proofs.Syntax.Phrases

/-!
# States

What the meaning of a program passes on from one phrase to the next: a heap of scopes,
a heap of arrays, the functions that have been declared, each with the statements of
its body, and the surroundings with the output.  Where a phrase stands, its `Context`,
is passed down.

The operations on values and states that involve no other phrase are functions.
-/

namespace Scripting
namespace Meaning

open Tree (Statement)

/-- What can be called. The body of a declared function are the statements in its
block. -/
inductive Definition where
  | builtin (given : Builtin)
  | function (name : String) (parameters : List String) (body : List Statement) (closure : Scope)

/-- The function without its body. -/
def Definition.outline : Definition → Callable
  | builtin given => .builtin given
  | function name parameters _ closure => .function ⟨name, parameters, none, closure⟩

/-- How many arguments a call has to supply. -/
def Definition.arity (definition : Definition) : Nat :=
  definition.outline.arity

/-- What a phrase leaves to the next one. -/
structure State where
  /-- The bindings of each scope. -/
  frames : Array Bindings
  /-- The elements of each array. -/
  arrays : Array (Array Value)
  functions : Array Definition
  /-- The surroundings, with the output. -/
  host : Host

/-- Where a phrase stands. -/
structure Context where
  /-- The scope in which names are looked up. -/
  scope : Scope
  /-- How many calls are active. -/
  depth : Nat
  /-- How many calls were active when the program was started. -/
  base : Nat
  /-- How many calls may be active at once. -/
  limit : Nat
  /-- The directories in which programs to include are looked for. -/
  libraries : List String

/-- The context at the top level of a program that is started here. -/
def Context.atTop (context : Context) : Context :=
  { context with scope := Scope.global, base := context.depth }

/-- The context in another scope. -/
def Context.within (context : Context) (scope : Scope) : Context :=
  { context with scope := scope }

/-- The context inside a call. -/
def Context.inCall (context : Context) : Context :=
  { context with depth := context.depth + 1 }

namespace State

/-- What values refer to in the state. -/
def store (state : State) : Store where
  frames := state.frames
  arrays := state.arrays
  callables := state.functions.map Definition.outline

/-- The text of a value. -/
def text (state : State) (value : Value) : String :=
  state.store.text value

/-- The elements of an array. -/
def elements (state : State) (id : ArrayId) : Array Value :=
  state.store.elements id

/-- The function that a value stands for. -/
def function? (state : State) : Value → Option Definition
  | .callable id => state.functions[id]?
  | _ => none

/-- The value of a name, which has to be bound. -/
def get (state : State) (scope : Scope) (name : Token) : Except Fault Value :=
  state.store.get scope name

/-- Binds a name in a frame. -/
def bindIn (state : State) (frame : FrameId) (name : String) (value : Value) : State :=
  { state with frames := state.frames.modify frame (·.bind name value) }

/-- Binds a name in a scope. -/
def define (state : State) (scope : Scope) (name : String) (value : Value) : State :=
  state.bindIn scope.frame name value

/-- Changes the value of a name in the nearest scope that binds it. -/
def assign (state : State) (scope : Scope) (name : Token) (value : Value) :
    Except Fault State :=
  match state.store.holder? scope name.lexeme with
  | some frame => .ok (state.bindIn frame name.lexeme value)
  | none => .error (Store.unbound name)

/-- A fresh scope inside another one. -/
def inside (state : State) (outer : Scope) : Scope :=
  outer.inside state.frames.size

/-- Adds the frame of a fresh scope, in which names are bound. -/
def enter (state : State) (bindings : List (String × Value)) : State :=
  bindings.foldl
    (fun later binding => later.bindIn state.frames.size binding.1 binding.2)
    { state with frames := state.frames.push [] }

/-- Adds an array. -/
def addArray (state : State) (items : Array Value) : State :=
  { state with arrays := state.arrays.push items }

/-- Adds an element to the end of an array. -/
def pushElement (state : State) (id : ArrayId) (value : Value) : State :=
  { state with arrays := state.arrays.modify id (·.push value) }

/-- Adds a function. -/
def addFunction (state : State) (definition : Definition) : State :=
  { state with functions := state.functions.push definition }

/-- Changes the surroundings. -/
def asking (state : State) (change : Host → Host) : State :=
  { state with host := change state.host }

/-- Writes a text, on behalf of a token. -/
def write (state : State) (text : String) (token : Token) : Except Fault State :=
  match state.host.sink with
  | .refusingText reason =>
      .error (Fault.atToken (.transfer ("cannot write output: " ++ reason)) token)
  | _ => .ok (state.asking (·.append text))

/-- Passes on what has been written. -/
def flush (state : State) : Except Fault Unit :=
  state.host.flush.mapError fun reason =>
    Fault.ofCause (.transfer ("cannot write output: " ++ reason)) none

end State

/-! ## Operators -/

/-- Whether the left operand is the value of an `and` or `or`, so that the right one is
skipped. -/
def decides (operator : Token) (left : Value) : Bool :=
  match operator.kind with
  | .keyword .orWord => left.isTruthy
  | _ => !left.isTruthy

/-- The value of an operator applied to one operand. -/
def unaryValue (operator : Token) (operand : Value) : Except Fault Value :=
  match operator.kind, operand with
  | .minus, .number value => .ok (.number (-value))
  | .minus, _ => .error (Fault.atToken .operandNotNumber operator)
  | .bang, _ => .ok (.bool !operand.isTruthy)
  | _, _ => .ok .null

/-- What an operator makes of two numbers. -/
def ofNumbers (operator : Token) (left right : Value) (value : Float → Float → Value) :
    Except Fault Value :=
  match left, right with
  | .number left, .number right => .ok (value left right)
  | _, _ => .error (Fault.atToken .operandsNotNumbers operator)

/-- Two numbers are added, and with a text among them the texts of two values are put
one after the other. -/
def sum (state : State) (operator : Token) (left right : Value) : Except Fault Value :=
  match left, right with
  | .number left, .number right => .ok (.number (left + right))
  | .text _, _ | _, .text _ => .ok (.text (state.text left ++ state.text right))
  | _, _ => .error (Fault.atToken .operandsNotAddable operator)

/-- A number is divided by another one that is no zero of either sign. -/
def quotient (operator : Token) (left right : Value) : Except Fault Value :=
  match left, right with
  | .number dividend, .number divisor =>
      if divisor == 0.0 then .error (Fault.atToken .divisionByZero operator)
      else .ok (.number (dividend / divisor))
  | _, _ => .error (Fault.atToken .operandsNotNumbers operator)

/-- The value of an operator applied to two operands. -/
def binaryValue (state : State) (operator : Token) (left right : Value) : Except Fault Value :=
  match operator.kind with
  | .equalEqual => .ok (.bool (left.same right))
  | .bangEqual => .ok (.bool !(left.same right))
  | .plus => sum state operator left right
  | .minus => ofNumbers operator left right fun a b => .number (a - b)
  | .star => ofNumbers operator left right fun a b => .number (a * b)
  | .slash => quotient operator left right
  | .greater => ofNumbers operator left right fun a b => .bool (decide (b < a))
  | .greaterEqual => ofNumbers operator left right fun a b => .bool (decide (b ≤ a))
  | .less => ofNumbers operator left right fun a b => .bool (decide (a < b))
  | .lessEqual => ofNumbers operator left right fun a b => .bool (decide (a ≤ b))
  | _ => .ok .null

/-- The element of an array at the whole part of a number. -/
def elementAt (state : State) (bracket : Token) (target position : Value) : Except Fault Value :=
  match target, position with
  | .array id, .number number =>
      let items := state.elements id
      let index := Decimal.wholePart number
      match index, items[index.toNat]? with
      | .ofNat _, some item => .ok item
      | _, _ => .error (Fault.atToken (.indexOutOfBounds index items.size) bracket)
  | .array _, _ => .error (Fault.atToken .indexNotNumber bracket)
  | _, _ => .error (Fault.atToken (.notIndexable target.typeName) bracket)

/-- The function that a call with so many arguments calls. -/
def callee (state : State) (context : Context) (paren : Token) (target : Value) (count : Nat) :
    Except Fault Definition :=
  match state.function? target with
  | none => .error (Fault.atToken .notCallable paren)
  | some definition =>
      if count ≠ definition.arity then
        .error (Fault.atToken (.wrongArity definition.arity count) paren)
      else if context.limit ≤ context.depth then .error (Fault.atToken .callsTooDeep paren)
      else .ok definition

/-- What a call of a function gives whose body ends so. -/
def resultOf : Flow → Value
  | .returning value => value
  | .normal => .null

end Meaning
end Scripting
