import Scripting.Tree.Arena
import Scripting.Text.Quoted
import Scripting.FreshStack

/-!
# The outline of a tree

A tree is shown on one line: every node that has parts stands in parentheses, a
word or operator first and then the outlines of its parts.  Absent parts leave no
trace.
-/

namespace Scripting
namespace Tree

/-- How a constant is shown. -/
def Constant.outline : Constant → String
  | .null => "null"
  | .bool true => "true"
  | .bool false => "false"
  | .number value => Decimal.text value
  | .text value => String.ofList (Text.quoted value.toList)

/-- A head and some parts in parentheses, separated by spaces. -/
def parenthesized (head : String) (parts : List String) : String :=
  "(" ++ head ++ String.join (parts.map (" " ++ ·)) ++ ")"

/-- The word in front of the parts of a node, for the kinds that are shown as a word
and all their parts. -/
def Node.head (node : Node) : String :=
  match node.kind with
  | .statements => "list"
  | .declaration => "var " ++ node.name
  | .echo => "echo"
  | .discard => "expr"
  | .block => "block"
  | .branch => "if"
  | .loop => "while"
  | .giveBack => "return"
  | .group => "group"
  | .assignment => "assign " ++ node.name
  | .call => "call"
  | .array => "array"
  | .index => "index"
  | .unary | .binary | .logical => node.name
  | .function | .parameter | .constant | .variable => node.name

/-- The outline of a node, given how its children are shown. -/
def Node.outline (node : Node) (shown : Option NodeId → String) : String :=
  let parts (children : List (Option NodeId)) := (children.filter (·.isSome)).map shown
  match node.kind with
  | .constant => (node.constant.getD .null).outline
  | .variable | .parameter => node.name
  | .function =>
      let parameters := " ".intercalate (node.parameters.map shown)
      parenthesized ("fn " ++ node.name ++ " (" ++ parameters ++ ")") (parts [node.body])
  | _ => parenthesized node.head (parts node.children)

namespace Arena

/-- The outline of a tree, as deep as `levels` allows. -/
def outlineWithin (arena : Arena) : (levels : Nat) → Option NodeId → String
  | 0, _ => ""
  | levels + 1, id =>
      match arena.node? id with
      | none => ""
      | some node =>
          atLevel levels fun _ => node.outline (arena.outlineWithin levels)

/-- The outline of a tree; no path through an arena is longer than its nodes are
many. -/
def outline (arena : Arena) (id : Option NodeId) : String :=
  arena.outlineWithin (levelsFor (arena.size + 1)) id

@[simp] theorem outline_none (arena : Arena) : arena.outline none = "" := by
  unfold outline levelsFor
  simp [levelsPerStack, outlineWithin, node?]

end Arena
end Tree
end Scripting
