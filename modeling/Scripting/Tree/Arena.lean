import Scripting.Token

/-!
# Syntax trees in an arena

The nodes of all programs that one machine has read stand in one arena, in the
order in which they were made, and refer to each other by their index.  Nodes are
only ever added, so an index keeps its meaning, and a node's children were made
before it.

A child may be absent: a variable without an initializer, a branch without an
alternative, a `return` without a value, or a declaration that could not be read.
-/

namespace Scripting
namespace Tree

/-- The kinds of node, with their tokens and children:

* `statements` (the end of the input): the declarations of a program;
* `declaration` (the name): the initializer, if any;
* `echo` (the keyword): the value;
* `discard` (the semicolon): the expression;
* `block` (the opening brace): the declarations in it;
* `branch` (`if`): condition, consequence and alternative, if any;
* `loop` (`while`): condition and body;
* `function` (the name): the parameters, then the body block;
* `giveBack` (`return`): the value, if any;
* `parameter` (the name): none;
* `constant` (the token of the value): none;
* `group` (the opening parenthesis): the expression inside;
* `unary` (the operator): the operand;
* `binary` (the operator): left and right operand;
* `logical` (`and` or `or`): left and right operand;
* `variable` (the name): none;
* `assignment` (the name): the value;
* `call` (the closing parenthesis): the function, then the arguments;
* `array` (the opening bracket): the elements;
* `index` (the closing bracket): the array and the position. -/
inductive NodeKind where
  | statements | declaration | echo | discard | block | branch | loop | function | giveBack
  | parameter
  | constant | group | unary | binary | logical | variable | assignment | call | array | index
  deriving DecidableEq, Inhabited

/-- The value of a constant in a program. -/
inductive Constant where
  | null
  | bool (value : Bool)
  | number (value : Float)
  | text (value : String)
  deriving Inhabited

/-- The constant that a literal stands for. -/
def Constant.ofLiteral : Token.Literal → Constant
  | .number value => .number value
  | .text value => .text value

/-- The index of a node in its arena. -/
abbrev NodeId := Nat

/-- A node of a syntax tree. -/
structure Node where
  kind : NodeKind
  token : Token
  /-- The value of a constant. -/
  constant : Option Constant
  children : List (Option NodeId)
  deriving Inhabited

namespace Node

/-- The text of the node's token, which is the name that the node declares or
mentions. -/
def name (node : Node) : String :=
  node.token.lexeme

/-- The child at a position, absent also beyond the last one. -/
def child (node : Node) (position : Nat) : Option NodeId :=
  (node.children[position]?).join

/-- The children before the last one: the parameters of a function. -/
def parameters (node : Node) : List (Option NodeId) :=
  node.children.dropLast

/-- The last child: the body of a function. -/
def body (node : Node) : Option NodeId :=
  node.children.getLast?.join

end Node

/-- The nodes made so far. -/
structure Arena where
  nodes : Array Node
  deriving Inhabited

namespace Arena

/-- No nodes. -/
def empty : Arena := ⟨#[]⟩

/-- How many nodes there are. -/
def size (arena : Arena) : Nat :=
  arena.nodes.size

/-- The index of the node that is added next. -/
def nextId (arena : Arena) : NodeId :=
  arena.nodes.size

/-- Adds a node, whose index is `nextId`. -/
def add (arena : Arena) (node : Node) : Arena :=
  ⟨arena.nodes.push node⟩

/-- The node at an index. -/
def get? (arena : Arena) (id : NodeId) : Option Node :=
  arena.nodes[id]?

/-- The node at an index that may be absent. -/
def node? (arena : Arena) : Option NodeId → Option Node
  | none => none
  | some id => arena.get? id

@[simp] theorem size_empty : empty.size = 0 := rfl

@[simp] theorem size_add (arena : Arena) (node : Node) :
    (arena.add node).size = arena.size + 1 := by
  simp [add, size]

/-- An added node is found at the index it was given. -/
@[simp] theorem get?_add_nextId (arena : Arena) (node : Node) :
    (arena.add node).get? arena.nextId = some node := by
  simp [add, get?, nextId]

/-- Adding a node changes no other. -/
theorem get?_add_of_lt
    (arena : Arena)
    (node : Node)
    {id : NodeId}
    (earlier : id < arena.nextId) :
    (arena.add node).get? id = arena.get? id := by
  unfold nextId at earlier
  simp [add, get?, Array.getElem?_push, Nat.ne_of_lt earlier]

end Arena
end Tree
end Scripting
