import Mathlib.Data.List.Forall2
import Scripting.Tree.Grammar
import Scripting.Proofs.Syntax.Rose

/-!
# The shape of nodes

`Layout` is the table of the kinds of node, with one row for each: which token and which
constant a node has, and which roles its children play.  A child is of a sort, and in some
roles it may be absent: as an initializer, as the alternative of a branch, as the value
that is given back, and as a declaration that has been lost.

In a well-formed arena every node fits its row, its children have been made before it, and
no node is a child twice (`Arena.WellFormed`).
-/

namespace Scripting
namespace Tree

open Token (Kind)

/-- What a node can stand for in a program. -/
inductive NodeSort where
  | program | declaration | statement | block | parameter | expression

/-- The kinds of node of a sort. A statement is a declaration, too, and a block is a
statement. -/
def NodeSort.kinds : NodeSort → List NodeKind
  | program => [.statements]
  | declaration =>
      [.declaration, .echo, .discard, .block, .branch, .loop, .function, .giveBack]
  | statement => [.echo, .discard, .block, .branch, .loop, .function, .giveBack]
  | block => [.block]
  | parameter => [.parameter]
  | expression =>
      [.constant, .group, .unary, .binary, .logical, .variable, .assignment, .call, .array,
        .index]

/-- What a child is to its parent. -/
structure Role where
  sort : NodeSort
  /-- Whether the child may be absent. -/
  optional : Bool

namespace Role

/-- The role of a child that is there. -/
def one (sort : NodeSort) : Role := ⟨sort, false⟩

/-- The role of a child that may be absent. -/
def maybe (sort : NodeSort) : Role := ⟨sort, true⟩

end Role

/-- The token and the constant of a node of each kind, and the roles of its children. -/
inductive Layout : NodeKind → Token → Option Constant → List Role → Prop
  | statements {token : Token} (count : Nat) :
      token.kind = .endOfInput →
        Layout .statements token none (.replicate count (.maybe .declaration))
  | declaration {token : Token} :
      token.kind = .identifier → Layout .declaration token none [.maybe .expression]
  | echo {token : Token} :
      token.kind = .keyword .echoWord → Layout .echo token none [.one .expression]
  | discard {token : Token} :
      token.kind = .semicolon → Layout .discard token none [.one .expression]
  | block {token : Token} (count : Nat) :
      token.kind = .leftBrace →
        Layout .block token none (.replicate count (.maybe .declaration))
  | branch {token : Token} :
      token.kind = .keyword .ifWord →
        Layout .branch token none [.one .expression, .one .statement, .maybe .statement]
  | loop {token : Token} :
      token.kind = .keyword .whileWord →
        Layout .loop token none [.one .expression, .one .statement]
  | function {token : Token} (count : Nat) :
      token.kind = .identifier →
        Layout .function token none (.replicate count (.one .parameter) ++ [.one .block])
  | giveBack {token : Token} :
      token.kind = .keyword .returnWord → Layout .giveBack token none [.maybe .expression]
  | parameter {token : Token} : token.kind = .identifier → Layout .parameter token none []
  | constant {token : Token} {value : Constant} :
      constantOf? token = some value → Layout .constant token (some value) []
  | group {token : Token} :
      token.kind = .leftParen → Layout .group token none [.one .expression]
  | unary {token : Token} :
      token.kind ∈ [.bang, .minus] → Layout .unary token none [.one .expression]
  | binary {token : Token} :
      token.kind ∈ [.equalEqual, .bangEqual, .less, .lessEqual, .greater, .greaterEqual, .plus,
        .minus, .star, .slash] →
        Layout .binary token none [.one .expression, .one .expression]
  | logical {token : Token} :
      token.kind ∈ [.keyword .orWord, .keyword .andWord] →
        Layout .logical token none [.one .expression, .one .expression]
  | variable {token : Token} : token.kind = .identifier → Layout .variable token none []
  | assignment {token : Token} :
      token.kind = .identifier → Layout .assignment token none [.one .expression]
  | call {token : Token} (count : Nat) :
      token.kind = .rightParen →
        Layout .call token none (.one .expression :: .replicate count (.one .expression))
  | array {token : Token} (count : Nat) :
      token.kind = .leftBracket →
        Layout .array token none (.replicate count (.one .expression))
  | index {token : Token} :
      token.kind = .rightBracket →
        Layout .index token none [.one .expression, .one .expression]

/-- The operators of all binding strengths make nodes of their kinds. -/
theorem Layout.of_level
    {level : Level}
    (known : level ∈ levels)
    {operator : Token}
    (member : operator.kind ∈ level.operators) :
    Layout level.joined operator none [.one .expression, .one .expression] ∧
      level.joined ∈ NodeSort.expression.kinds := by
  simp only [levels, List.mem_cons, List.not_mem_nil, or_false] at known
  have wider : ∀ {few all : List Kind}, few ⊆ all → operator.kind ∈ few → operator.kind ∈ all :=
    fun sub inside => sub inside
  obtain rfl | rfl | rfl | rfl | rfl | rfl := known
  · exact ⟨.logical (wider (by simp) member), by decide⟩
  · exact ⟨.logical (wider (by simp) member), by decide⟩
  all_goals exact ⟨.binary (wider (by simp) member), by decide⟩

namespace Arena

variable {arena later : Arena}

/-- There is a node of the sort at the index. -/
def IsA (arena : Arena) (sort : NodeSort) (index : NodeId) : Prop :=
  ∃ node, arena.get? index = some node ∧ node.kind ∈ sort.kinds

/-- What is at the index, if there is one, can play the role. -/
def Plays (arena : Arena) (role : Role) : Option NodeId → Prop
  | none => role.optional = true
  | some index => arena.IsA role.sort index

theorem IsA.mono
    {sort : NodeSort}
    {index : NodeId}
    (is : arena.IsA sort index)
    (before : arena ≤ later) :
    later.IsA sort index := by
  obtain ⟨node, found, kind⟩ := is
  exact ⟨node, get?_of_le before found, kind⟩

theorem IsA.lt_size
    {sort : NodeSort}
    {index : NodeId}
    (is : arena.IsA sort index) :
    index < arena.size := by
  obtain ⟨node, found, -⟩ := is
  exact lt_size_of_get? found

theorem Plays.mono
    {role : Role}
    {id : Option NodeId}
    (plays : arena.Plays role id)
    (before : arena ≤ later) :
    later.Plays role id := by
  cases id with
  | none => exact plays
  | some index => exact IsA.mono plays before

/-- A node of a sort is one of every wider sort, and may be absent where nodes may be. -/
theorem Plays.widen
    {role wider : Role}
    (sorts : role.sort.kinds ⊆ wider.sort.kinds)
    (optional : role.optional = true → wider.optional = true)
    {id : Option NodeId}
    (plays : arena.Plays role id) :
    arena.Plays wider id := by
  cases id with
  | none => exact optional plays
  | some index =>
      obtain ⟨node, found, kind⟩ := plays
      exact ⟨node, found, sorts kind⟩

/-- The indices of all children, of one node after the other. -/
def childIds (arena : Arena) : List NodeId :=
  arena.nodes.toList.flatMap fun node => node.children.filterMap id

theorem childIds_add (arena : Arena) (node : Node) :
    (arena.add node).childIds = arena.childIds ++ node.children.filterMap id := by
  simp [childIds, add]

end Arena

/-- The node fits the row of its kind, and its children play their roles in the arena. -/
def Node.Shaped (arena : Arena) (node : Node) : Prop :=
  ∃ roles, Layout node.kind node.token node.constant roles ∧
    List.Forall₂ arena.Plays roles node.children

theorem Node.Shaped.mono
    {arena later : Arena}
    {node : Node}
    (shaped : node.Shaped arena)
    (before : arena ≤ later) :
    node.Shaped later := by
  obtain ⟨roles, layout, play⟩ := shaped
  exact ⟨roles, layout, play.imp fun _ _ plays => plays.mono before⟩

/-- Every node has its shape, stands behind its children, and shares none of them. -/
structure Arena.WellFormed (arena : Arena) : Prop where
  shaped : ∀ id node, arena.get? id = some node → node.Shaped arena
  earlier : ∀ id node, arena.get? id = some node → ∀ child, some child ∈ node.children → child < id
  once : arena.childIds.Nodup

namespace Arena

variable {arena : Arena}

theorem wellFormed_empty : empty.WellFormed where
  shaped id node found := by simp [get?, empty] at found
  earlier id node found := by simp [get?, empty] at found
  once := .nil

/-- A node of the larger arena is the added one or was there before. -/
theorem get?_add_cases
    {node found : Node}
    {id : NodeId}
    (present : (arena.add node).get? id = some found) :
    arena.get? id = some found ∨ id = arena.nextId ∧ found = node := by
  have bound := lt_size_of_get? present
  rw [size_add] at bound
  obtain inside | rfl := Nat.lt_succ_iff_lt_or_eq.mp bound
  · exact .inl (by rwa [get?_add_of_lt arena node inside] at present)
  · exact .inr ⟨rfl, (Option.some.inj ((get?_add_nextId arena node).symm.trans present)).symm⟩

/-- Children are nodes of the arena. -/
theorem WellFormed.childIds_lt_size
    (formed : arena.WellFormed)
    {child : NodeId}
    (member : child ∈ arena.childIds) :
    child < arena.size := by
  obtain ⟨node, inside, isChild⟩ := List.mem_flatMap.mp member
  obtain ⟨id, found⟩ := List.mem_iff_getElem?.mp inside
  rw [Array.getElem?_toList] at found
  have earlier := formed.earlier id node found child (by simpa using isChild)
  exact Nat.lt_trans earlier (lt_size_of_get? found)

end Arena
end Tree
end Scripting
