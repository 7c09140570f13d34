import Scripting.Token
import Scripting.Text.Lines

/-!
# Faults

What can go wrong with a program: while its text is read, while its structure is
recognized, or while it runs.  A fault is a cause together with the place it is
blamed on.  The wording of every cause stands in `Cause.message`, and
`Fault.text` renders a whole fault, with the offending line of the source and a
mark below the offending column when that line is known.
-/

namespace Scripting

/-- The three stages at which a program can fail. -/
inductive Stage where
  | lexical | structural | running
  deriving DecidableEq, Inhabited

/-- What went wrong. -/
inductive Cause where
  | unexpectedCharacter (c : Char)
  | unterminatedText
  | expected (message : String)
  | expectedExpression
  | invalidAssignmentTarget
  | undefinedVariable (name : String)
  | operandNotNumber
  | operandsNotNumbers
  | operandsNotAddable
  | divisionByZero
  | notCallable
  | wrongArity (wanted given : Nat)
  | notIndexable (typeName : String)
  | indexNotNumber
  | indexOutOfBounds (index : Int) (length : Nat)
  | returnOutsideFunction
  | callsTooDeep
  /-- Reading a program or writing its output failed. -/
  | transfer (message : String)
  /-- A built-in function refused its task. -/
  | refusal (message : String)
  deriving DecidableEq, Inhabited

namespace Cause

/-- The stage at which a cause arises. -/
def stage : Cause → Stage
  | unexpectedCharacter _ | unterminatedText => .lexical
  | expected _ | expectedExpression | invalidAssignmentTarget => .structural
  | _ => .running

/-- The wording of a cause. -/
def message : Cause → String
  | unexpectedCharacter c => "unexpected character '" ++ c.toString ++ "'"
  | unterminatedText => "unterminated string"
  | expected message => message
  | expectedExpression => "expected expression"
  | invalidAssignmentTarget => "invalid assignment target"
  | undefinedVariable name => "undefined variable '" ++ name ++ "'"
  | operandNotNumber => "operand must be a number"
  | operandsNotNumbers => "operands must be numbers"
  | operandsNotAddable => "operands must be two numbers or include a string"
  | divisionByZero => "division by zero"
  | notCallable => "can only call functions"
  | wrongArity wanted given =>
      "expected " ++ toString wanted ++ " arguments but got " ++ toString given
  | notIndexable typeName => "only arrays can be indexed, not " ++ typeName
  | indexNotNumber => "index must be a number"
  | indexOutOfBounds index length =>
      "index out of bounds: index " ++ toString index ++ " but length is " ++ toString length
  | returnOutsideFunction => "return outside of function"
  | callsTooDeep => "stack overflow"
  | transfer message => message
  | refusal message => message

end Cause

/-- A cause and the place it is blamed on. -/
structure Fault where
  cause : Cause
  span : Option Token.Span
  /-- The text of the offending token. -/
  lexeme : Option String
  /-- The line of the source on which the offending token starts. -/
  sourceLine : Option String
  deriving DecidableEq, Inhabited

namespace Fault

/-- A fault that is blamed on a place, or on none, but on no token. -/
def ofCause
    (cause : Cause)
    (span : Option Token.Span) : Fault where
  cause := cause
  span := span
  lexeme := none
  sourceLine := none

/-- A fault that is blamed on a token. The end of the input has no text of its
own. -/
def atToken
    (cause : Cause)
    (token : Token) : Fault where
  cause := cause
  span := some token.span
  lexeme := if token.kind = .endOfInput then none else some token.lexeme
  sourceLine := none

/-- The stage at which a fault arose. -/
def stage (fault : Fault) : Stage :=
  fault.cause.stage

/-- The line a fault is blamed on. -/
def line (fault : Fault) : Option Nat :=
  fault.span.map (·.line)

/-- Blames a fault without a place on a token. -/
def orAt
    (fault : Fault)
    (token : Token) : Fault :=
  match fault.span with
  | some _ => fault
  | none => Fault.atToken fault.cause token

/-- Adds the offending line of the source, if the source has that line. -/
def withSource
    (fault : Fault)
    (source : String) : Fault :=
  match fault.span with
  | none => fault
  | some span =>
      if span.line = 0 then fault
      else match (Text.lines source.toList)[span.line - 1]? with
        | none => fault
        | some line => { fault with sourceLine := some (String.ofList line) }

/-- What kind of fault it is, as the rendered text says it. -/
def label (fault : Fault) : String :=
  match fault.stage with
  | .running => "Runtime error"
  | .lexical | .structural => "Error"

/-- What the rendered text says of the offending token. -/
def blame (fault : Fault) : String :=
  match fault.lexeme, fault.stage with
  | some lexeme, _ => " at '" ++ lexeme ++ "'"
  | none, .structural => " at end"
  | none, _ => ""

/-- The offending line and a mark below the column. -/
def excerpt (line : String) (column : Nat) : String :=
  "\n  | " ++ line ++ "\n  | " ++ String.ofList (List.replicate (column - 1) ' ') ++ "^"

/-- The rendered fault. -/
def text (fault : Fault) : String :=
  match fault.span with
  | none => fault.label ++ ": " ++ fault.cause.message
  | some span =>
      "[line " ++ toString span.line ++ ":" ++ toString span.column ++ "] " ++ fault.label
        ++ fault.blame ++ ": " ++ fault.cause.message
        ++ (fault.sourceLine.map (excerpt · span.column)).getD ""

@[simp] theorem orAt_of_span
    {fault : Fault}
    {span : Token.Span}
    (placed : fault.span = some span)
    (token : Token) :
    fault.orAt token = fault := by
  unfold orAt
  rw [placed]

/-- The source changes neither the cause nor the place. -/
@[simp] theorem withSource_cause
    (fault : Fault)
    (source : String) :
    (fault.withSource source).cause = fault.cause := by
  unfold withSource
  split
  · rfl
  · split
    · rfl
    · split <;> rfl

@[simp] theorem withSource_span
    (fault : Fault)
    (source : String) :
    (fault.withSource source).span = fault.span := by
  unfold withSource
  split
  · rfl
  · split
    · rfl
    · split <;> rfl

@[simp] theorem withSource_lexeme
    (fault : Fault)
    (source : String) :
    (fault.withSource source).lexeme = fault.lexeme := by
  unfold withSource
  split
  · rfl
  · split
    · rfl
    · split <;> rfl

end Fault
end Scripting
