import Scripting.Proofs.Syntax.Rose

/-!
# Expressions and statements

The syntax of programs as types: an expression or a statement holds exactly the
tokens and the parts that its meaning needs.  `rose` lays each one out as a tree
of nodes, one equation for every kind of node, and no two phrases have the same
layout.
-/

namespace Scripting
namespace Tree

/-- Expressions, each with the token that its faults are blamed on. -/
inductive Expression where
  | constant (token : Token) (value : Constant)
  | mention (name : Token)
  | group (paren : Token) (inner : Expression)
  | array (bracket : Token) (items : List Expression)
  | unary (operator : Token) (operand : Expression)
  | binary (operator : Token) (left right : Expression)
  | logical (operator : Token) (left right : Expression)
  | assignment (name : Token) (value : Expression)
  | call (paren : Token) (callee : Expression) (arguments : List Expression)
  | index (bracket : Token) (target position : Expression)

/-- Statements and declarations. A `branch` has no alternative, a `choice` has one. -/
inductive Statement where
  | declaration (name : Token) (initializer : Option Expression)
  | echo (keyword : Token) (value : Expression)
  | discard (semicolon : Token) (value : Expression)
  | block (brace : Token) (body : List Statement)
  | branch (keyword : Token) (condition : Expression) (consequence : Statement)
  | choice (keyword : Token) (condition : Expression) (consequence alternative : Statement)
  | loop (keyword : Token) (condition : Expression) (body : Statement)
  | function (name : Token) (parameters : List Token) (brace : Token) (body : List Statement)
  | giveBack (keyword : Token) (value : Option Expression)

namespace Expression

mutual

/-- The layout of an expression. -/
def rose : Expression → Rose
  | .constant token value => .node .constant token (some value) []
  | .mention name => .node .variable name none []
  | .group paren inner => .node .group paren none [inner.rose]
  | .array bracket items => .node .array bracket none (roses items)
  | .unary operator operand => .node .unary operator none [operand.rose]
  | .binary operator left right => .node .binary operator none [left.rose, right.rose]
  | .logical operator left right => .node .logical operator none [left.rose, right.rose]
  | .assignment name value => .node .assignment name none [value.rose]
  | .call paren callee arguments => .node .call paren none (callee.rose :: roses arguments)
  | .index bracket target position => .node .index bracket none [target.rose, position.rose]

/-- The layouts of expressions. -/
def roses : List Expression → List Rose
  | [] => []
  | expression :: others => expression.rose :: roses others

end

/-- The layout of an expression that may be left out. -/
def optionalRose : Option Expression → Rose
  | none => .absent
  | some expression => expression.rose

@[simp] theorem roses_nil : roses [] = [] := by
  simp [roses]

@[simp] theorem roses_cons (expression : Expression) (others : List Expression) :
    roses (expression :: others) = expression.rose :: roses others := by
  simp [roses]

theorem rose_ne_absent (expression : Expression) : expression.rose ≠ .absent := by
  cases expression <;> simp [rose]

mutual

/-- An expression is known by its layout. -/
theorem rose_injective :
    ∀ {expression other : Expression}, expression.rose = other.rose → expression = other
  | .constant .., other, same => by
      cases other <;> simp_all [rose]
  | .mention .., other, same => by
      cases other <;> simp_all [rose]
  | .group _ inner, other, same => by
      cases other <;> simp only [rose, Rose.node.injEq, reduceCtorEq, false_and] at same
      obtain ⟨-, rfl, -, children⟩ := same
      rw [rose_injective (List.cons.inj children).1]
  | .array _ items, other, same => by
      cases other <;> simp only [rose, Rose.node.injEq, reduceCtorEq, false_and] at same
      obtain ⟨-, rfl, -, children⟩ := same
      rw [roses_injective children]
  | .unary _ operand, other, same => by
      cases other <;> simp only [rose, Rose.node.injEq, reduceCtorEq, false_and] at same
      obtain ⟨-, rfl, -, children⟩ := same
      rw [rose_injective (List.cons.inj children).1]
  | .binary _ left right, other, same => by
      cases other <;> simp only [rose, Rose.node.injEq, reduceCtorEq, false_and] at same
      obtain ⟨-, rfl, -, children⟩ := same
      obtain ⟨first, others⟩ := List.cons.inj children
      rw [rose_injective first, rose_injective (List.cons.inj others).1]
  | .logical _ left right, other, same => by
      cases other <;> simp only [rose, Rose.node.injEq, reduceCtorEq, false_and] at same
      obtain ⟨-, rfl, -, children⟩ := same
      obtain ⟨first, others⟩ := List.cons.inj children
      rw [rose_injective first, rose_injective (List.cons.inj others).1]
  | .assignment _ value, other, same => by
      cases other <;> simp only [rose, Rose.node.injEq, reduceCtorEq, false_and] at same
      obtain ⟨-, rfl, -, children⟩ := same
      rw [rose_injective (List.cons.inj children).1]
  | .call _ callee arguments, other, same => by
      cases other <;> simp only [rose, Rose.node.injEq, reduceCtorEq, false_and] at same
      obtain ⟨-, rfl, -, children⟩ := same
      obtain ⟨first, others⟩ := List.cons.inj children
      rw [rose_injective first, roses_injective others]
  | .index _ target position, other, same => by
      cases other <;> simp only [rose, Rose.node.injEq, reduceCtorEq, false_and] at same
      obtain ⟨-, rfl, -, children⟩ := same
      obtain ⟨first, others⟩ := List.cons.inj children
      rw [rose_injective first, rose_injective (List.cons.inj others).1]

/-- Expressions are known by their layouts. -/
theorem roses_injective :
    ∀ {expressions others : List Expression}, roses expressions = roses others →
      expressions = others
  | [], [], _ => rfl
  | [], other :: others, same => by simp at same
  | expression :: expressions, [], same => by simp at same
  | expression :: expressions, other :: others, same => by
      rw [roses_cons, roses_cons] at same
      obtain ⟨first, rest⟩ := List.cons.inj same
      rw [rose_injective first, roses_injective rest]

end

theorem optionalRose_injective
    {expression other : Option Expression}
    (same : optionalRose expression = optionalRose other) :
    expression = other := by
  cases expression with
  | none =>
      cases other with
      | none => rfl
      | some other => exact absurd same.symm (rose_ne_absent other)
  | some expression =>
      cases other with
      | none => exact absurd same (rose_ne_absent expression)
      | some other => exact congrArg some (rose_injective same)

end Expression

namespace Statement

open Expression (optionalRose optionalRose_injective rose_injective)

/-- The layout of a parameter. -/
def parameterRose (name : Token) : Rose :=
  .node .parameter name none []

mutual

/-- The layout of a statement. -/
def rose : Statement → Rose
  | .declaration name initializer => .node .declaration name none [optionalRose initializer]
  | .echo keyword value => .node .echo keyword none [value.rose]
  | .discard semicolon value => .node .discard semicolon none [value.rose]
  | .block brace body => .node .block brace none (roses body)
  | .branch keyword condition consequence =>
      .node .branch keyword none [condition.rose, consequence.rose, .absent]
  | .choice keyword condition consequence alternative =>
      .node .branch keyword none [condition.rose, consequence.rose, alternative.rose]
  | .loop keyword condition body => .node .loop keyword none [condition.rose, body.rose]
  | .function name parameters brace body =>
      .node .function name none
        (parameters.map parameterRose ++ [.node .block brace none (roses body)])
  | .giveBack keyword value => .node .giveBack keyword none [optionalRose value]

/-- The layouts of statements. -/
def roses : List Statement → List Rose
  | [] => []
  | statement :: others => statement.rose :: roses others

end

@[simp] theorem roses_nil : roses [] = [] := by
  simp [roses]

@[simp] theorem roses_cons (statement : Statement) (others : List Statement) :
    roses (statement :: others) = statement.rose :: roses others := by
  simp [roses]

@[simp] theorem roses_append (first second : List Statement) :
    roses (first ++ second) = roses first ++ roses second := by
  induction first with
  | nil => simp
  | cons statement others inductionHypothesis => simp [inductionHypothesis]

theorem rose_ne_absent (statement : Statement) : statement.rose ≠ .absent := by
  cases statement <;> simp [rose]

theorem parameterRose_injective
    {name other : Token}
    (same : parameterRose name = parameterRose other) :
    name = other := by
  simpa [parameterRose] using same

mutual

/-- A statement is known by its layout. -/
theorem rose_injective :
    ∀ {statement other : Statement}, statement.rose = other.rose → statement = other
  | .declaration .., other, same => by
      cases other <;> simp only [rose, Rose.node.injEq, reduceCtorEq, false_and] at same
      obtain ⟨-, rfl, -, children⟩ := same
      rw [optionalRose_injective (List.cons.inj children).1]
  | .echo .., other, same => by
      cases other <;> simp only [rose, Rose.node.injEq, reduceCtorEq, false_and] at same
      obtain ⟨-, rfl, -, children⟩ := same
      rw [Expression.rose_injective (List.cons.inj children).1]
  | .discard .., other, same => by
      cases other <;> simp only [rose, Rose.node.injEq, reduceCtorEq, false_and] at same
      obtain ⟨-, rfl, -, children⟩ := same
      rw [Expression.rose_injective (List.cons.inj children).1]
  | .block _ body, other, same => by
      cases other <;> simp only [rose, Rose.node.injEq, reduceCtorEq, false_and] at same
      obtain ⟨-, rfl, -, children⟩ := same
      rw [roses_injective children]
  | .branch _ _ consequence, other, same => by
      cases other <;> simp only [rose, Rose.node.injEq, reduceCtorEq, false_and] at same
      case branch =>
        obtain ⟨-, rfl, -, children⟩ := same
        obtain ⟨first, others⟩ := List.cons.inj children
        rw [Expression.rose_injective first, rose_injective (List.cons.inj others).1]
      case choice _ _ _ alternative =>
        obtain ⟨-, -, -, children⟩ := same
        have last : Rose.absent = alternative.rose := by simp_all
        exact absurd last.symm (rose_ne_absent alternative)
  | .choice _ _ consequence alternative, other, same => by
      cases other <;> simp only [rose, Rose.node.injEq, reduceCtorEq, false_and] at same
      case branch =>
        obtain ⟨-, -, -, children⟩ := same
        have last : alternative.rose = Rose.absent := by simp_all
        exact absurd last (rose_ne_absent alternative)
      case choice =>
        obtain ⟨-, rfl, -, children⟩ := same
        obtain ⟨first, others⟩ := List.cons.inj children
        obtain ⟨second, others⟩ := List.cons.inj others
        rw [Expression.rose_injective first, rose_injective second,
          rose_injective (List.cons.inj others).1]
  | .loop _ _ body, other, same => by
      cases other <;> simp only [rose, Rose.node.injEq, reduceCtorEq, false_and] at same
      obtain ⟨-, rfl, -, children⟩ := same
      obtain ⟨first, others⟩ := List.cons.inj children
      rw [Expression.rose_injective first, rose_injective (List.cons.inj others).1]
  | .function _ _ _ body, other, same => by
      cases other <;> simp only [rose, Rose.node.injEq, reduceCtorEq, false_and] at same
      obtain ⟨-, rfl, -, children⟩ := same
      obtain ⟨parameters, bodies⟩ := List.append_inj' children rfl
      simp only [List.cons.injEq, Rose.node.injEq, true_and, and_true] at bodies
      obtain ⟨rfl, statements⟩ := bodies
      rw [(List.map_inj_right fun _ _ => parameterRose_injective).mp parameters,
        roses_injective statements]
  | .giveBack .., other, same => by
      cases other <;> simp only [rose, Rose.node.injEq, reduceCtorEq, false_and] at same
      obtain ⟨-, rfl, -, children⟩ := same
      rw [optionalRose_injective (List.cons.inj children).1]

/-- Statements are known by their layouts. -/
theorem roses_injective :
    ∀ {statements others : List Statement}, roses statements = roses others →
      statements = others
  | [], [], _ => rfl
  | [], other :: others, same => by simp at same
  | statement :: statements, [], same => by simp at same
  | statement :: statements, other :: others, same => by
      rw [roses_cons, roses_cons] at same
      obtain ⟨first, rest⟩ := List.cons.inj same
      rw [rose_injective first, roses_injective rest]

end

end Statement
end Tree
end Scripting
