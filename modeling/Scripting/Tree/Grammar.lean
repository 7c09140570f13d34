import Scripting.Tree.Arena
import Scripting.Fault
import Scripting.FreshStack

/-!
# Reading programs

The grammar, with `a?` for an optional part and `a*` for any number of them:

    program      declaration* end
    declaration  "let" name ("=" expression)? ";"  |  statement
    statement    "fn" name "(" (name ("," name)*)? ")" block
              |  "echo" expression ";"
              |  "if" "(" expression ")" statement ("else" statement)?
              |  "while" "(" expression ")" statement
              |  "return" expression? ";"
              |  block
              |  expression ";"
    block        "{" declaration* "}"
    expression   name "=" expression  |  or
    or           and ("or" and)*
    and          equality ("and" equality)*
    equality     comparison (("==" | "!=") comparison)*
    comparison   sum (("<" | "<=" | ">" | ">=") sum)*
    sum          product (("+" | "-") product)*
    product      unary (("*" | "/") unary)*
    unary        ("!" | "-") unary  |  application
    application  primary ("(" arguments? ")" | "[" expression "]")*
    primary      "null" | "true" | "false" | number | text | name
              |  "(" expression ")"  |  "[" arguments? "]"
    arguments    expression ("," expression)*

A declaration that cannot be read is recorded as a fault and leaves an absent
child; reading goes on after the next semicolon or before the next keyword that
opens a statement.

Three phrases contain themselves: statements, expressions and unary operands.
The rules below take the reader of these phrases, `read`, as an argument and call
it only after a token has been taken, so `Phrase.readWithin` can count the
levels down: a count that is at least the number of tokens left never runs out,
and at the end of the input every phrase fails in the way a count of zero does.
-/

namespace Scripting
namespace Tree

open Token (Kind)

/-- What is left to be read, and what has been made so far. -/
structure Cursor where
  /-- The tokens left before the end of the input. -/
  rest : List Token
  /-- The end of the input. -/
  ending : Token
  arena : Arena
  /-- The faults of the declarations that could not be read. -/
  faults : Array Fault

/-- The token that is read next. -/
def Cursor.current (cursor : Cursor) : Token :=
  cursor.rest.headD cursor.ending

/-- Reading that moves a cursor and may fail. -/
abbrev Parse (α : Type) := EStateM Fault Cursor α

/-- The token that is read next. -/
def peek : Parse Token := fun cursor =>
  .ok cursor.current cursor

/-- Whether the token that is read next is of a kind and not the end. -/
def check (kind : Kind) : Parse Bool := fun cursor =>
  .ok ((cursor.rest.head?.map (·.kind)) == some kind) cursor

/-- Moves past one token. -/
def skip : Parse Unit := fun cursor =>
  .ok () { cursor with rest := cursor.rest.tail }

/-- Takes the next token if it is of a wanted kind. -/
def acceptAny (wanted : List Kind) : Parse (Option Token) := fun cursor =>
  match cursor.rest with
  | [] => .ok none cursor
  | token :: rest =>
      if token.kind ∈ wanted then .ok (some token) { cursor with rest := rest }
      else .ok none cursor

/-- Takes the next token if it is of the wanted kind. -/
def accept (kind : Kind) : Parse (Option Token) :=
  acceptAny [kind]

/-- Takes the next token, which has to be of a kind. -/
def expect (kind : Kind) (message : String) : Parse Token := do
  match ← accept kind with
  | some token => return token
  | none => throw (Fault.atToken (.expected message) (← peek))

/-- Fails because no expression begins with the next token. -/
def noExpression {α : Type} : Parse α := do
  throw (Fault.atToken .expectedExpression (← peek))

/-- Adds a node and gives its index. -/
def addNode (node : Node) : Parse NodeId := fun cursor =>
  let id := cursor.arena.nextId
  .ok id { cursor with arena := cursor.arena.add node }

/-- Adds a node that is no constant. -/
def add (kind : NodeKind) (token : Token) (children : List (Option NodeId)) : Parse NodeId :=
  addNode { kind, token, constant := none, children }

/-- Records a fault and goes on. -/
def record (fault : Fault) : Parse Unit := fun cursor =>
  .ok () { cursor with faults := cursor.faults.push fault }

/-- The tokens at which reading goes on after a declaration that failed at the first
of the given ones: after a semicolon, or before a token that opens a statement. -/
def resume : List Token → List Token
  | [] => []
  | token :: rest =>
      if token.kind = .semicolon then rest
      else match rest with
        | [] => []
        | next :: _ => if next.kind.startsStatement then rest else resume rest

/-- A reading whose failure is recorded and leaves nothing but the loss. -/
def recovering (work : Parse NodeId) : StateM Cursor (Option NodeId) := fun cursor =>
  match work cursor with
  | .ok id cursor => (some id, cursor)
  | .error fault cursor =>
      (none, { cursor with faults := cursor.faults.push fault, rest := resume cursor.rest })

/-- A reading that cannot fail, as one that may. -/
def unfailing {α : Type} (work : StateM Cursor α) : Parse α := fun cursor =>
  let (value, cursor) := work cursor
  .ok value cursor

/-- The phrases that contain themselves. -/
inductive Phrase where
  | statement | expression | unary
  deriving DecidableEq, Inhabited

/-- The operators of one binding strength and the kind of node that they make. -/
structure Level where
  operators : List Kind
  joined : NodeKind

/-- The binding strengths of the binary operators, the loosest first. -/
def levels : List Level := [
  ⟨[.keyword .orWord], .logical⟩,
  ⟨[.keyword .andWord], .logical⟩,
  ⟨[.equalEqual, .bangEqual], .binary⟩,
  ⟨[.less, .lessEqual, .greater, .greaterEqual], .binary⟩,
  ⟨[.plus, .minus], .binary⟩,
  ⟨[.star, .slash], .binary⟩]

/-- The constant that a token is by itself. -/
def constantOf? (token : Token) : Option Constant :=
  match token.kind with
  | .keyword .nullWord => some .null
  | .keyword .trueWord => some (.bool true)
  | .keyword .falseWord => some (.bool false)
  | .number | .text => token.literal.map Constant.ofLiteral
  | _ => none

/-- One or more items between commas, after those already `found`. -/
def separated
    (item : Parse NodeId) :
    (rounds : Nat) → (found : Array (Option NodeId)) → Parse (Array (Option NodeId))
  | 0, found => return found
  | rounds + 1, found => do
      let id ← item
      let found := found.push (some id)
      match ← accept .comma with
      | some _ => separated item rounds found
      | none => return found

/-- Any number of items between commas, up to a closing token that is not taken. -/
def itemsBefore
    (closing : Kind)
    (item : Parse NodeId)
    (rounds : Nat) : Parse (List (Option NodeId)) := do
  if ← check closing then return []
  else return (← separated item rounds #[]).toList

section Rules

variable (read : Phrase → Parse NodeId) (rounds : Nat)

/-- A constant, a name, or an expression in parentheses or brackets. -/
def primary : Parse NodeId := do
  let token ← peek
  match constantOf? token with
  | some constant =>
      skip
      addNode { kind := .constant, token, constant := some constant, children := [] }
  | none =>
      match token.kind with
      | .identifier =>
          skip
          add .variable token []
      | .leftParen =>
          skip
          let inner ← read .expression
          let _ ← expect .rightParen "expected ')' after expression"
          add .group token [some inner]
      | .leftBracket =>
          skip
          let elements ← itemsBefore .rightBracket (read .expression) rounds
          let _ ← expect .rightBracket "expected ']' after array elements"
          add .array token elements
      | _ => noExpression

/-- The calls and indexings that follow a primary expression. -/
def applications : (remaining : Nat) → NodeId → Parse NodeId
  | 0, target => return target
  | remaining + 1, target => do
      match ← accept .leftParen with
      | some _ =>
          let arguments ← itemsBefore .rightParen (read .expression) rounds
          let paren ← expect .rightParen "expected ')' after arguments"
          let call ← add .call paren (some target :: arguments)
          applications remaining call
      | none =>
          match ← accept .leftBracket with
          | some _ =>
              let position ← read .expression
              let bracket ← expect .rightBracket "expected ']' after index"
              let element ← add .index bracket [some target, some position]
              applications remaining element
          | none => return target

/-- An operand of a binary operator. -/
def unary : Parse NodeId := do
  match ← acceptAny [.bang, .minus] with
  | some operator =>
      let operand ← read .unary
      add .unary operator [some operand]
  | none =>
      let target ← primary read rounds
      applications read rounds rounds target

/-- The operators of one level and their right operands, joined to the left operand
one after the other. -/
def chain (level : Level) (operand : Parse NodeId) : (remaining : Nat) → NodeId → Parse NodeId
  | 0, left => return left
  | remaining + 1, left => do
      match ← acceptAny level.operators with
      | some operator =>
          let right ← operand
          let joined ← add level.joined operator [some left, some right]
          chain level operand remaining joined
      | none => return left

/-- An expression with the binary operators of the given levels. -/
def binary : List Level → Parse NodeId
  | [] => unary read rounds
  | level :: tighter => do
      let left ← binary tighter
      chain level (binary tighter) rounds left

/-- An expression. What stands before an equals sign has to be a name; when it is
not, the fault is recorded and the assignment is left out. -/
def expression : Parse NodeId := do
  let target ← binary read rounds levels
  match ← accept .equal with
  | none => return target
  | some equals =>
      let value ← read .expression
      let cursor ← get
      match cursor.arena.get? target with
      | some { kind := .variable, token, .. } => add .assignment token [some value]
      | _ =>
          record (Fault.atToken .invalidAssignmentTarget equals)
          return target

/-- The declaration of a variable, after `let`. -/
def variableDeclaration : Parse NodeId := do
  let name ← expect .identifier "expected variable name"
  let initializer ← match ← accept .equal with
    | some _ => some <$> read .expression
    | none => pure none
  let _ ← expect .semicolon "expected ';' after variable declaration"
  add .declaration name [initializer]

/-- A declaration, or its loss. -/
def declaration : StateM Cursor (Option NodeId) :=
  recovering do
    match ← accept (.keyword .letWord) with
    | some _ => variableDeclaration read
    | none => read .statement

/-- Declarations up to the end or to a token of the kind that closes them, after those
already `found`. -/
def declarationsBefore
    (closing : Option Kind) :
    (remaining : Nat) → (found : Array (Option NodeId)) → StateM Cursor (List (Option NodeId))
  | 0, found => fun cursor => (found.toList, cursor)
  | remaining + 1, found => fun cursor =>
      match cursor.rest with
      | [] => (found.toList, cursor)
      | token :: _ =>
          if some token.kind = closing then (found.toList, cursor)
          else
            let (id, cursor) := declaration read cursor
            declarationsBefore closing remaining (found.push id) cursor

/-- The declarations of a block and its closing brace, after the opening one. -/
def blockRest : Parse (List (Option NodeId)) := do
  let found ← unfailing (declarationsBefore read (some .rightBrace) rounds #[])
  let _ ← expect .rightBrace "expected '\x7d' after block"
  return found

/-- The name of a parameter. -/
def parameter : Parse NodeId := do
  let name ← expect .identifier "expected parameter name"
  add .parameter name []

/-- The declaration of a function, after `fn`. -/
def functionDeclaration : Parse NodeId := do
  let name ← expect .identifier "expected function name"
  let _ ← expect .leftParen "expected '(' after function name"
  let parameters ← itemsBefore .rightParen parameter rounds
  let _ ← expect .rightParen "expected ')' after parameters"
  let brace ← expect .leftBrace "expected '\x7b' before function body"
  let found ← blockRest read rounds
  let body ← add .block brace found
  add .function name (parameters ++ [some body])

/-- A branch, after its keyword. An alternative belongs to the nearest branch. -/
def branch (keyword : Token) : Parse NodeId := do
  let _ ← expect .leftParen "expected '(' after 'if'"
  let condition ← read .expression
  let _ ← expect .rightParen "expected ')' after if condition"
  let consequence ← read .statement
  let alternative ← match ← accept (.keyword .elseWord) with
    | some _ => some <$> read .statement
    | none => pure none
  add .branch keyword [some condition, some consequence, alternative]

/-- A loop, after its keyword. -/
def loop (keyword : Token) : Parse NodeId := do
  let _ ← expect .leftParen "expected '(' after 'while'"
  let condition ← read .expression
  let _ ← expect .rightParen "expected ')' after while condition"
  let body ← read .statement
  add .loop keyword [some condition, some body]

/-- The value that a function gives back, after the keyword. -/
def giveBack (keyword : Token) : Parse NodeId := do
  let value ← if ← check .semicolon then pure none else some <$> read .expression
  let _ ← expect .semicolon "expected ';' after return value"
  add .giveBack keyword [value]

/-- A statement. -/
def statement : Parse NodeId := do
  let token ← peek
  match token.kind with
  | .keyword .fnWord =>
      skip
      functionDeclaration read rounds
  | .keyword .echoWord =>
      skip
      let value ← read .expression
      let _ ← expect .semicolon "expected ';' after value"
      add .echo token [some value]
  | .keyword .ifWord =>
      skip
      branch read token
  | .keyword .whileWord =>
      skip
      loop read token
  | .keyword .returnWord =>
      skip
      giveBack read token
  | .leftBrace =>
      skip
      let found ← blockRest read rounds
      add .block token found
  | _ =>
      let value ← expression read rounds
      let semicolon ← expect .semicolon "expected ';' after expression"
      add .discard semicolon [some value]

/-- The rule of a phrase. -/
def Phrase.rule : Phrase → Parse NodeId
  | .statement => Tree.statement read rounds
  | .expression => Tree.expression read rounds
  | .unary => Tree.unary read rounds

end Rules

/-- Reads a phrase of which at most `count` tokens are left. -/
def Phrase.readWithin : (count : Nat) → Phrase → Parse NodeId
  | 0, _ => noExpression
  | count + 1, phrase => fun cursor =>
      atLevel count fun _ => phrase.rule (readWithin count) (count + 1) cursor

/-- Reads a program of at most `count` tokens and gives the index of its root. -/
def program (count : Nat) : StateM Cursor NodeId := fun cursor =>
  let (found, cursor) := declarationsBefore (Phrase.readWithin count) none count #[] cursor
  let id := cursor.arena.nextId
  let root : Node :=
    { kind := .statements, token := cursor.current, constant := none, children := found }
  (id, { cursor with arena := cursor.arena.add root })

/-- What reading a program gives. -/
structure Program where
  root : NodeId
  /-- The arena with the nodes of the program added. -/
  arena : Arena
  faults : List Fault

/-- Reads a program into an arena. -/
def readProgram (tokens : Token.Sequence) (arena : Arena) : Program :=
  let start : Cursor :=
    { rest := tokens.body, ending := tokens.ending, arena := arena, faults := #[] }
  let (root, cursor) := program (levelsFor tokens.body.length) start
  { root, arena := cursor.arena, faults := cursor.faults.toList }

end Tree
end Scripting
