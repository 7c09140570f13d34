import Scripting.Proofs.Meaning.Builtins
import Scripting.Proofs.Reading.Sources

/-!
# The meaning of programs

What programs mean, as rules over their syntax.  `Runs task context state outcome later`
says that a phrase, in its context and from a state, comes to an end with a value or a
fault, and in which state it leaves off.  What never comes to an end has no derivation.

Operands, elements and arguments are evaluated from left to right, and all of them
before anything is asked of their values.  A fault ends everything around it.  A block
is executed in a fresh scope inside the current one, and the body of a function in a
fresh scope inside the one of its declaration.
-/

namespace Scripting
namespace Meaning

open Tree (Expression Statement)

/-- What is done with a phrase. -/
inductive Task where
  | evaluate (expression : Expression)
  | evaluateAll (expressions : List Expression)
  | execute (statement : Statement)
  | executeAll (statements : List Statement)
  /-- Executes a statement as long as a condition counts as true. -/
  | repeating (condition : Expression) (body : Statement)
  | call (definition : Definition) (arguments : List Value)
  /-- Asks a built-in function. -/
  | answer (action : Action) (arguments : List Value)
  /-- Executes statements at the top level, and passes on their output. -/
  | program (statements : List Statement)

/-- What a task ends with. -/
@[reducible] def Task.Result : Task → Type
  | .evaluate _ => Value
  | .evaluateAll _ => List Value
  | .execute _ => Flow
  | .executeAll _ => Flow
  | .repeating _ _ => Flow
  | .call _ _ => Value
  | .answer _ _ => Builtin.Answer
  | .program _ => Unit

/-- The rules of the language. -/
inductive Runs : (task : Task) → Context → State → Except Fault task.Result → State → Prop
  -- Expressions.
  | constant {context : Context} {state : State} {token : Token} {value : Tree.Constant} :
      Runs (.evaluate (.constant token value)) context state (.ok (.ofConstant value)) state
  | mention {context : Context} {state : State} {name : Token} :
      Runs (.evaluate (.mention name)) context state (state.get context.scope name) state
  | group {context : Context} {state later : State} {outcome : Except Fault Value} {paren : Token}
      {inner : Expression} :
      Runs (.evaluate inner) context state outcome later →
      Runs (.evaluate (.group paren inner)) context state outcome later
  | array {context : Context} {state later : State} {bracket : Token} {items : List Expression}
      {values : List Value} :
      Runs (.evaluateAll items) context state (.ok values) later →
      Runs (.evaluate (.array bracket items)) context state (.ok (.array later.arrays.size))
        (later.addArray values.toArray)
  | arrayFails {context : Context} {state later : State} {fault : Fault} {bracket : Token}
      {items : List Expression} :
      Runs (.evaluateAll items) context state (.error fault) later →
      Runs (.evaluate (.array bracket items)) context state (.error fault) later
  | unary {context : Context} {state later : State} {outcome : Except Fault Value}
      {operator : Token} {operand : Expression} :
      Runs (.evaluate operand) context state outcome later →
      Runs (.evaluate (.unary operator operand)) context state
        (outcome.bind (unaryValue operator)) later
  | binary {context : Context} {state between later : State} {outcome : Except Fault Value}
      {value : Value} {operator : Token} {left right : Expression} :
      Runs (.evaluate left) context state (.ok value) between →
      Runs (.evaluate right) context between outcome later →
      Runs (.evaluate (.binary operator left right)) context state
        (outcome.bind (binaryValue later operator value)) later
  | binaryFails {context : Context} {state later : State} {fault : Fault} {operator : Token}
      {left right : Expression} :
      Runs (.evaluate left) context state (.error fault) later →
      Runs (.evaluate (.binary operator left right)) context state (.error fault) later
  | decided {context : Context} {state later : State} {value : Value} {operator : Token}
      {left right : Expression} :
      Runs (.evaluate left) context state (.ok value) later →
      decides operator value = true →
      Runs (.evaluate (.logical operator left right)) context state (.ok value) later
  | undecided {context : Context} {state between later : State} {outcome : Except Fault Value}
      {value : Value} {operator : Token} {left right : Expression} :
      Runs (.evaluate left) context state (.ok value) between →
      decides operator value = false →
      Runs (.evaluate right) context between outcome later →
      Runs (.evaluate (.logical operator left right)) context state outcome later
  | logicalFails {context : Context} {state later : State} {fault : Fault} {operator : Token}
      {left right : Expression} :
      Runs (.evaluate left) context state (.error fault) later →
      Runs (.evaluate (.logical operator left right)) context state (.error fault) later
  | assigned {context : Context} {state between later : State} {value : Value} {name : Token}
      {expression : Expression} :
      Runs (.evaluate expression) context state (.ok value) between →
      between.assign context.scope name value = .ok later →
      Runs (.evaluate (.assignment name expression)) context state (.ok value) later
  | unassigned {context : Context} {state later : State} {value : Value} {fault : Fault}
      {name : Token} {expression : Expression} :
      Runs (.evaluate expression) context state (.ok value) later →
      later.assign context.scope name value = .error fault →
      Runs (.evaluate (.assignment name expression)) context state (.error fault) later
  | assignmentFails {context : Context} {state later : State} {fault : Fault} {name : Token}
      {expression : Expression} :
      Runs (.evaluate expression) context state (.error fault) later →
      Runs (.evaluate (.assignment name expression)) context state (.error fault) later
  | called {context : Context} {state between before later : State}
      {outcome : Except Fault Value} {target : Value} {values : List Value}
      {definition : Definition} {paren : Token} {function : Expression}
      {arguments : List Expression} :
      Runs (.evaluate function) context state (.ok target) between →
      Runs (.evaluateAll arguments) context between (.ok values) before →
      callee before context paren target values.length = .ok definition →
      Runs (.call definition values) context.inCall before outcome later →
      Runs (.evaluate (.call paren function arguments)) context state
        (outcome.mapError (·.orAt paren)) later
  | uncalled {context : Context} {state between later : State} {target : Value}
      {values : List Value} {fault : Fault} {paren : Token} {function : Expression}
      {arguments : List Expression} :
      Runs (.evaluate function) context state (.ok target) between →
      Runs (.evaluateAll arguments) context between (.ok values) later →
      callee later context paren target values.length = .error fault →
      Runs (.evaluate (.call paren function arguments)) context state (.error fault) later
  | argumentsFail {context : Context} {state between later : State} {target : Value}
      {fault : Fault} {paren : Token} {function : Expression} {arguments : List Expression} :
      Runs (.evaluate function) context state (.ok target) between →
      Runs (.evaluateAll arguments) context between (.error fault) later →
      Runs (.evaluate (.call paren function arguments)) context state (.error fault) later
  | functionFails {context : Context} {state later : State} {fault : Fault} {paren : Token}
      {function : Expression} {arguments : List Expression} :
      Runs (.evaluate function) context state (.error fault) later →
      Runs (.evaluate (.call paren function arguments)) context state (.error fault) later
  | index {context : Context} {state between later : State} {outcome : Except Fault Value}
      {value : Value} {bracket : Token} {target position : Expression} :
      Runs (.evaluate target) context state (.ok value) between →
      Runs (.evaluate position) context between outcome later →
      Runs (.evaluate (.index bracket target position)) context state
        (outcome.bind (elementAt later bracket value)) later
  | indexFails {context : Context} {state later : State} {fault : Fault} {bracket : Token}
      {target position : Expression} :
      Runs (.evaluate target) context state (.error fault) later →
      Runs (.evaluate (.index bracket target position)) context state (.error fault) later
  -- Expressions from left to right.
  | noValues {context : Context} {state : State} :
      Runs (.evaluateAll []) context state (.ok []) state
  | moreValues {context : Context} {state between later : State}
      {outcome : Except Fault (List Value)} {value : Value} {expression : Expression}
      {others : List Expression} :
      Runs (.evaluate expression) context state (.ok value) between →
      Runs (.evaluateAll others) context between outcome later →
      Runs (.evaluateAll (expression :: others)) context state (outcome.map (value :: ·)) later
  | valueFails {context : Context} {state later : State} {fault : Fault}
      {expression : Expression} {others : List Expression} :
      Runs (.evaluate expression) context state (.error fault) later →
      Runs (.evaluateAll (expression :: others)) context state (.error fault) later
  -- Statements.
  | declared {context : Context} {state : State} {name : Token} :
      Runs (.execute (.declaration name none)) context state (.ok .normal)
        (state.define context.scope name.lexeme .null)
  | initialized {context : Context} {state later : State} {value : Value} {name : Token}
      {initializer : Expression} :
      Runs (.evaluate initializer) context state (.ok value) later →
      Runs (.execute (.declaration name (some initializer))) context state (.ok .normal)
        (later.define context.scope name.lexeme value)
  | initializerFails {context : Context} {state later : State} {fault : Fault} {name : Token}
      {initializer : Expression} :
      Runs (.evaluate initializer) context state (.error fault) later →
      Runs (.execute (.declaration name (some initializer))) context state (.error fault) later
  | echoed {context : Context} {state between later : State} {value : Value} {keyword : Token}
      {expression : Expression} :
      Runs (.evaluate expression) context state (.ok value) between →
      between.write (between.text value ++ "\n") keyword = .ok later →
      Runs (.execute (.echo keyword expression)) context state (.ok .normal) later
  | unwritten {context : Context} {state later : State} {value : Value} {fault : Fault}
      {keyword : Token} {expression : Expression} :
      Runs (.evaluate expression) context state (.ok value) later →
      later.write (later.text value ++ "\n") keyword = .error fault →
      Runs (.execute (.echo keyword expression)) context state (.error fault) later
  | echoFails {context : Context} {state later : State} {fault : Fault} {keyword : Token}
      {expression : Expression} :
      Runs (.evaluate expression) context state (.error fault) later →
      Runs (.execute (.echo keyword expression)) context state (.error fault) later
  | discarded {context : Context} {state later : State} {outcome : Except Fault Value}
      {semicolon : Token} {expression : Expression} :
      Runs (.evaluate expression) context state outcome later →
      Runs (.execute (.discard semicolon expression)) context state
        (outcome.map fun _ => .normal) later
  | block {context : Context} {state later : State} {outcome : Except Fault Flow}
      {brace : Token} {body : List Statement} :
      Runs (.executeAll body) (context.within (state.inside context.scope)) (state.enter [])
        outcome later →
      Runs (.execute (.block brace body)) context state outcome later
  | taken {context : Context} {state between later : State} {outcome : Except Fault Flow}
      {value : Value} {keyword : Token} {condition : Expression} {consequence : Statement} :
      Runs (.evaluate condition) context state (.ok value) between →
      value.isTruthy = true →
      Runs (.execute consequence) context between outcome later →
      Runs (.execute (.branch keyword condition consequence)) context state outcome later
  | skipped {context : Context} {state later : State} {value : Value} {keyword : Token}
      {condition : Expression} {consequence : Statement} :
      Runs (.evaluate condition) context state (.ok value) later →
      value.isTruthy = false →
      Runs (.execute (.branch keyword condition consequence)) context state (.ok .normal) later
  | branchFails {context : Context} {state later : State} {fault : Fault} {keyword : Token}
      {condition : Expression} {consequence : Statement} :
      Runs (.evaluate condition) context state (.error fault) later →
      Runs (.execute (.branch keyword condition consequence)) context state (.error fault) later
  | chosen {context : Context} {state between later : State} {outcome : Except Fault Flow}
      {value : Value} {keyword : Token} {condition : Expression}
      {consequence alternative : Statement} :
      Runs (.evaluate condition) context state (.ok value) between →
      Runs (.execute (if value.isTruthy then consequence else alternative)) context between
        outcome later →
      Runs (.execute (.choice keyword condition consequence alternative)) context state outcome
        later
  | choiceFails {context : Context} {state later : State} {fault : Fault} {keyword : Token}
      {condition : Expression} {consequence alternative : Statement} :
      Runs (.evaluate condition) context state (.error fault) later →
      Runs (.execute (.choice keyword condition consequence alternative)) context state
        (.error fault) later
  | loop {context : Context} {state later : State} {outcome : Except Fault Flow}
      {keyword : Token} {condition : Expression} {body : Statement} :
      Runs (.repeating condition body) context state outcome later →
      Runs (.execute (.loop keyword condition body)) context state outcome later
  | function {context : Context} {state : State} {name brace : Token} {parameters : List Token}
      {body : List Statement} :
      Runs (.execute (.function name parameters brace body)) context state (.ok .normal)
        ((state.addFunction (.function name.lexeme (parameters.map Token.lexeme) body
            context.scope)).define context.scope name.lexeme (.callable state.functions.size))
  | outside {context : Context} {state : State} {keyword : Token} {value : Option Expression} :
      context.depth = context.base →
      Runs (.execute (.giveBack keyword value)) context state
        (.error (Fault.atToken .returnOutsideFunction keyword)) state
  | gaveNothing {context : Context} {state : State} {keyword : Token} :
      context.depth ≠ context.base →
      Runs (.execute (.giveBack keyword none)) context state (.ok (.returning .null)) state
  | gaveBack {context : Context} {state later : State} {outcome : Except Fault Value}
      {keyword : Token} {value : Expression} :
      context.depth ≠ context.base →
      Runs (.evaluate value) context state outcome later →
      Runs (.execute (.giveBack keyword (some value))) context state
        (outcome.map .returning) later
  -- Statements in turn.
  | finished {context : Context} {state : State} :
      Runs (.executeAll []) context state (.ok .normal) state
  | further {context : Context} {state between later : State} {outcome : Except Fault Flow}
      {statement : Statement} {others : List Statement} :
      Runs (.execute statement) context state (.ok .normal) between →
      Runs (.executeAll others) context between outcome later →
      Runs (.executeAll (statement :: others)) context state outcome later
  | left {context : Context} {state later : State} {value : Value} {statement : Statement}
      {others : List Statement} :
      Runs (.execute statement) context state (.ok (.returning value)) later →
      Runs (.executeAll (statement :: others)) context state (.ok (.returning value)) later
  | statementFails {context : Context} {state later : State} {fault : Fault}
      {statement : Statement} {others : List Statement} :
      Runs (.execute statement) context state (.error fault) later →
      Runs (.executeAll (statement :: others)) context state (.error fault) later
  -- Loops.
  | ceased {context : Context} {state later : State} {value : Value} {condition : Expression}
      {body : Statement} :
      Runs (.evaluate condition) context state (.ok value) later →
      value.isTruthy = false →
      Runs (.repeating condition body) context state (.ok .normal) later
  | again {context : Context} {state between around later : State}
      {outcome : Except Fault Flow} {value : Value} {condition : Expression} {body : Statement} :
      Runs (.evaluate condition) context state (.ok value) between →
      value.isTruthy = true →
      Runs (.execute body) context between (.ok .normal) around →
      Runs (.repeating condition body) context around outcome later →
      Runs (.repeating condition body) context state outcome later
  | leftLoop {context : Context} {state between later : State} {value result : Value}
      {condition : Expression} {body : Statement} :
      Runs (.evaluate condition) context state (.ok value) between →
      value.isTruthy = true →
      Runs (.execute body) context between (.ok (.returning result)) later →
      Runs (.repeating condition body) context state (.ok (.returning result)) later
  | bodyFails {context : Context} {state between later : State} {value : Value} {fault : Fault}
      {condition : Expression} {body : Statement} :
      Runs (.evaluate condition) context state (.ok value) between →
      value.isTruthy = true →
      Runs (.execute body) context between (.error fault) later →
      Runs (.repeating condition body) context state (.error fault) later
  | conditionFails {context : Context} {state later : State} {fault : Fault}
      {condition : Expression} {body : Statement} :
      Runs (.evaluate condition) context state (.error fault) later →
      Runs (.repeating condition body) context state (.error fault) later
  -- Calls.
  | applyFunction {context : Context} {state later : State} {outcome : Except Fault Flow}
      {name : String} {parameters : List String} {body : List Statement} {closure : Scope}
      {values : List Value} :
      Runs (.executeAll body) (context.within (state.inside closure))
        (state.enter (parameters.zip values)) outcome later →
      Runs (.call (.function name parameters body closure) values) context state
        (outcome.map resultOf) later
  | applyBuiltin {context : Context} {state later : State} {answer : Builtin.Answer}
      {given : Builtin} {values : List Value} :
      Runs (.answer given.action values) context state (.ok answer) later →
      Runs (.call (.builtin given) values) context state (outcomeOf given answer) later
  -- Built-in functions.
  | answered {context : Context} {state later : State} {answer : Builtin.Answer}
      {action : Action} {values : List Value} :
      answer? state action (values.headD .null) (values.tail.headD .null) =
        some (answer, later) →
      Runs (.answer action values) context state (.ok answer) later
  | missing {context : Context} {state later : State} {reason : String} {values : List Value} :
      located state context.libraries (values.headD .null) = (.error reason, later) →
      Runs (.answer .runFile values) context state (.ok (.error reason)) later
  | rejected {context : Context} {state later : State} {found source : String}
      {values : List Value} :
      located state context.libraries (values.headD .null) = (.ok (found, source), later) →
      accepts source = false →
      Runs (.answer .runFile values) context state (.ok (faulty found (faultsOf source))) later
  | included {context : Context} {state between later : State} {outcome : Except Fault Unit}
      {found source : String} {statements : List Statement} {values : List Value} :
      located state context.libraries (values.headD .null) = (.ok (found, source), between) →
      accepts source = true →
      Statement.Derives .declarations (tokensOf source).body [] statements →
      Statement.AllElseNearest statements →
      Runs (.program statements) context between outcome later →
      Runs (.answer .runFile values) context state (.ok (included found source outcome)) later
  | unapplied {context : Context} {state : State} {values : List Value} :
      applied? state (values.headD .null) (values.tail.headD .null) = none →
      Runs (.answer .apply values) context state
        (.ok (.error "expected a function and an array")) state
  | applied {context : Context} {state later : State} {outcome : Except Fault Value}
      {definition : Definition} {values arguments : List Value} :
      applied? state (values.headD .null) (values.tail.headD .null) =
        some (definition, arguments) →
      Runs (.call definition arguments) context state outcome later →
      Runs (.answer .apply values) context state (.ok (outcome.mapError Fault.text)) later
  -- Programs.
  | program {context : Context} {state later : State} {flow : Flow}
      {statements : List Statement} :
      Runs (.executeAll statements) context.atTop state (.ok flow) later →
      Runs (.program statements) context state later.flush later
  | programFails {context : Context} {state later : State} {fault : Fault}
      {statements : List Statement} :
      Runs (.executeAll statements) context.atTop state (.error fault) later →
      Runs (.program statements) context state (.error fault) later

end Meaning
end Scripting
