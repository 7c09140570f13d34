import Scripting.Evaluation
import Scripting.Proofs.Reading.Essence
import Scripting.Proofs.Reading.Shapes
import Scripting.Proofs.Reading.Sources
import Scripting.Proofs.Syntax.Changed

/-!
# Trees legible from their sketches

The sketch of the tree of a program tells the tree, apart from the places of its tokens and from
how its numbers were spelled.  The first word of a list is the word of one kind of node or an
operator, and how many parts come after it tells what was left out; a word by itself is a
constant or a name.

Main statements: `Expression.Derives.legible`, `Statement.Derives.legible`,
`Machine.readSource_outline_injective`.
-/

namespace Scripting
namespace Tree

open Token (Kind symbol named)

/-! ## Reading a sketch -/

/-- What a word in front of a list says about the node: its kind, its token, unless that is the
name that comes next, and how many children it has at the least, with those that are left out. -/
structure Heading where
  kind : NodeKind
  token : Option Token
  least : Nat

/-- The words in front of lists, apart from operators and the word of functions. -/
def headings : List (String × Heading) :=
  [("list", ⟨.statements, some (.placeless .endOfInput ""), 0⟩),
    ("var", ⟨.declaration, none, 1⟩),
    ("echo", ⟨.echo, some (symbol (.keyword .echoWord)), 0⟩),
    ("expr", ⟨.discard, some (symbol .semicolon), 0⟩),
    ("block", ⟨.block, some (symbol .leftBrace), 0⟩),
    ("if", ⟨.branch, some (symbol (.keyword .ifWord)), 3⟩),
    ("while", ⟨.loop, some (symbol (.keyword .whileWord)), 0⟩),
    ("return", ⟨.giveBack, some (symbol (.keyword .returnWord)), 1⟩),
    ("group", ⟨.group, some (symbol .leftParen), 0⟩),
    ("assign", ⟨.assignment, none, 0⟩),
    ("call", ⟨.call, some (symbol .rightParen), 0⟩),
    ("array", ⟨.array, some (symbol .leftBracket), 0⟩),
    ("index", ⟨.index, some (symbol .rightBracket), 0⟩)]

/-- The operators that stand before an operand. -/
def signs : List Kind :=
  [.bang, .minus]

/-- The operators that need not evaluate their right operand. -/
def connectives : List Kind :=
  [.keyword .orWord, .keyword .andWord]

/-- All operators. -/
def operators : List Kind :=
  signs ++ Strength.all.flatMap Strength.operators

/-- The kinds of node that are not shown as a list of words and of their children. -/
def unlistedKinds : List NodeKind :=
  [.constant, .variable, .parameter, .function]

/-- The trees, with what is left out after them. -/
def padded (least : Nat) (trees : List Rose) : List Rose :=
  trees ++ List.replicate (least - trees.length) .absent

theorem padded_zero (trees : List Rose) : padded 0 trees = trees := by
  simp [padded]

namespace Sketch

/-- The token of the name that a word is. -/
def name : Sketch → Token
  | word text => named text
  | list _ => named ""

@[simp] theorem name_word (text : String) : (word text).name = named text :=
  rfl

/-- The trees of the parameters that are listed. -/
def parameters : Sketch → List Rose
  | word _ => []
  | list items => items.map fun item => .node .parameter item.name none []

/-- The tree of a word by itself. -/
def leaf (text : String) : Rose :=
  match Constant.ofOutline? text with
  | some value => .node .constant value.token (some value) []
  | none => .node .variable (named text) none []

/-- The tree of an operator with its operands. -/
def operation (head : String) (operands : List Rose) : Rose :=
  let operator := (operators.find? (·.description == head)).getD .endOfInput
  let kind : NodeKind :=
    if operands.length = 1 then .unary
    else if operator ∈ connectives then .logical
    else .binary
  .node kind (symbol operator) none operands

/-- The tree of a list, given the trees of what comes after its first word. -/
def assembled (head : String) (items : List Sketch) (trees : List Rose) : Rose :=
  match headings.lookup head, items with
  | some ⟨kind, some token, least⟩, _ => .node kind token none (padded least trees)
  | some ⟨kind, none, least⟩, called :: _ =>
      .node kind called.name none (padded least trees.tail)
  | none, called :: listed :: _ =>
      if head = "fn" then
        .node .function called.name none (listed.parameters ++ trees.tail.tail)
      else operation head trees
  | _, _ => operation head trees

theorem assembled_function
    (called listed : Sketch)
    (items : List Sketch)
    (trees : List Rose) :
    assembled "fn" (called :: listed :: items) trees =
      .node .function called.name none (listed.parameters ++ trees.tail.tail) := by
  have noHeading : headings.lookup "fn" = none := by
    decide
  simp only [assembled, noHeading, if_true]

theorem assembled_operation
    {head : String}
    (noHeading : headings.lookup head = none)
    (noFunction : head ≠ "fn")
    (items : List Sketch)
    (trees : List Rose) :
    assembled head items trees = operation head trees := by
  unfold assembled
  split <;> simp_all

mutual

/-- The tree of a sketch. -/
def tree : Sketch → Rose
  | word text => leaf text
  | list [] => .absent
  | list (list _ :: _) => .absent
  | list (word head :: items) => assembled head items (trees items)

/-- The trees of sketches. -/
def trees : List Sketch → List Rose
  | [] => []
  | item :: others => item.tree :: trees others

end

end Sketch

namespace Rose

/-- The tree can be told from its sketch. -/
def Legible (tree : Rose) : Prop :=
  ∃ sketch, tree.sketch? = some sketch ∧ sketch.Fits ∧ sketch.tree = tree.map Token.essence

/-- The trees can be told from their sketches. -/
def AllLegible (trees : List Rose) : Prop :=
  ∃ items, sketches trees = items.map some ∧ Sketch.AllFit items ∧
    Sketch.trees items = mapAll Token.essence trees

/-! ## Lists of trees -/

theorem allLegible_nil : AllLegible [] :=
  ⟨[], rfl, by simp [Sketch.AllFit], by simp [Sketch.trees, mapAll]⟩

theorem AllLegible.cons
    {tree : Rose}
    {trees : List Rose}
    (others : AllLegible trees)
    (first : tree.Legible) :
    AllLegible (tree :: trees) := by
  obtain ⟨sketch, isSketch, fits, isTree⟩ := first
  obtain ⟨items, areSketches, allFit, areTrees⟩ := others
  refine ⟨sketch :: items, ?_, ?_, ?_⟩
  · simp [sketches, isSketch, areSketches]
  · simp [Sketch.AllFit, fits, allFit]
  · simp [Sketch.trees, mapAll, isTree, areTrees]

theorem Legible.single {tree : Rose} (legible : tree.Legible) : AllLegible [tree] :=
  .cons allLegible_nil legible

theorem Legible.pair
    {tree other : Rose}
    (legible : tree.Legible)
    (otherLegible : other.Legible) :
    AllLegible [tree, other] :=
  .cons otherLegible.single legible

theorem sketches_eq_map (trees : List Rose) : sketches trees = trees.map sketch? := by
  induction trees with
  | nil => simp [sketches]
  | cons tree trees inductionHypothesis => simp [sketches, inductionHypothesis]

theorem mapAll_eq_map (change : Token → Token) (trees : List Rose) :
    mapAll change trees = trees.map (map change) := by
  induction trees with
  | nil => simp [mapAll]
  | cons tree trees inductionHypothesis => simp [mapAll, inductionHypothesis]

/-- Trees with what is left out after them leave no trace of it, and are told all the same. -/
theorem AllLegible.padded
    {trees : List Rose}
    (legible : AllLegible trees)
    (least : Nat) :
    ∃ items, (sketches (Tree.padded least trees)).filterMap id = items ∧ Sketch.AllFit items ∧
      Tree.padded least (Sketch.trees items) =
        mapAll Token.essence (Tree.padded least trees) := by
  obtain ⟨items, areSketches, allFit, areTrees⟩ := legible
  rw [sketches_eq_map] at areSketches
  refine ⟨items, ?_, allFit, ?_⟩
  · rw [Tree.padded, sketches_eq_map, List.map_append, areSketches, List.map_replicate]
    simp [sketch?]
  · simp [Tree.padded, areTrees, mapAll_eq_map, map]

/-! ## Nodes -/

section Nodes

variable {kind : NodeKind} {token : Token} {children present : List Rose} {least : Nat}
  {head : String}

/-- The word in front of a list is a word, and it is the one of the kind that it tells, with the
name after it if the token is one. -/
theorem words_of_lookup {heading : Heading} (found : headings.lookup head = some heading) :
    Sketch.IsWord head.toList ∧ heading.kind ∉ unlistedKinds ∧
      ∀ name, heading.kind.words name =
        head :: (if heading.token.isSome then [] else [name]) := by
  have plain : ∀ entry ∈ headings,
      entry.1.toList ≠ [] ∧ ∀ c ∈ entry.1.toList, Sketch.isDelimiter c = false := by
    simp [headings, Sketch.isDelimiter]
  have words : ∀ entry ∈ headings, ∀ name, entry.2.kind.words name =
      entry.1 :: (if entry.2.token.isSome then [] else [name]) := by
    simp [headings, NodeKind.words]
  have listed : ∀ entry ∈ headings, entry.2.kind ∉ unlistedKinds := by
    simp [headings, unlistedKinds]
  obtain ⟨before, after, whole, -⟩ := List.lookup_eq_some_iff.mp found
  have member : (head, heading) ∈ headings := by simp [whole]
  obtain ⟨nonempty, noDelimiter⟩ := plain _ member
  exact ⟨.plain nonempty noDelimiter, listed _ member, words _ member⟩

theorem sketch?_eq_list
    (listed : kind ∉ unlistedKinds)
    (constant : Option Constant) :
    (node kind token constant children).sketch? =
      some (.list ((kind.words token.lexeme).map .word ++ (sketches children).filterMap id)) := by
  rw [sketch?]
  cases kind <;> first | rfl | simp [unlistedKinds] at listed

/-- A node is told by the word of its kind. -/
theorem legible_of_word
    (found : headings.lookup head = some ⟨kind, some token.essence, least⟩)
    (below : AllLegible present)
    (whole : children = padded least present) :
    (node kind token none children).Legible := by
  obtain ⟨items, areSketches, allFit, areTrees⟩ := below.padded least
  obtain ⟨isWord, listed, words⟩ := words_of_lookup found
  refine ⟨_, sketch?_eq_list listed none, ?_, ?_⟩
  · rw [words, whole, areSketches]
    simp [Sketch.Fits, Sketch.AllFit, isWord, allFit]
  · rw [words, whole, areSketches]
    simp [Sketch.tree, Sketch.assembled, found, areTrees, map]

/-- A node whose token has one spelling is told by the word of its kind. -/
theorem legible_of_symbol
    {tokenKind : Kind}
    (proper : token.Proper)
    (isKind : token.kind = tokenKind)
    (uniform : tokenKind ∉ Token.variedKinds)
    (found : headings.lookup head = some ⟨kind, some (symbol tokenKind), least⟩)
    (below : AllLegible present)
    (whole : children = padded least present) :
    (node kind token none children).Legible := by
  rw [← proper.essence_eq_symbol isKind uniform] at found
  exact legible_of_word found below whole

/-- A node is told by the word of its kind and its name. -/
theorem legible_of_name
    (proper : token.Proper)
    (isName : token.kind = .identifier)
    (found : headings.lookup head = some ⟨kind, none, least⟩)
    (below : AllLegible present)
    (whole : children = padded least present) :
    (node kind token none children).Legible := by
  obtain ⟨items, areSketches, allFit, areTrees⟩ := below.padded least
  obtain ⟨isHead, listed, words⟩ := words_of_lookup found
  obtain ⟨isWord, -⟩ := Constant.ofOutline?_name proper isName
  refine ⟨_, sketch?_eq_list listed none, ?_, ?_⟩
  · rw [words, whole, areSketches]
    simp [Sketch.Fits, Sketch.AllFit, isHead, isWord, allFit]
  · rw [words, whole, areSketches]
    simp [Sketch.tree, Sketch.assembled, Sketch.trees, found, areTrees, map,
      (proper.name isName).1]

/-- An operator is found by its text, which is no other word in front of a list. -/
theorem find?_operators :
    ∀ operator ∈ operators,
      operators.find? (·.description == operator.description) = some operator ∧
        headings.lookup operator.description = none ∧ operator.description ≠ "fn" := by
  decide

theorem isWord_operator {operator : Kind} (isOperator : operator ∈ operators) :
    Sketch.IsWord operator.description.toList := by
  have plain : ∀ operator ∈ operators, operator.description.toList ≠ [] ∧
      ∀ c ∈ operator.description.toList, Sketch.isDelimiter c = false := by
    simp [operators, signs, Strength.all, Strength.operators, Kind.description, Keyword.spelling,
      Sketch.isDelimiter]
  obtain ⟨nonempty, noDelimiter⟩ := plain operator isOperator
  exact .plain nonempty noDelimiter

/-- An operator with its operands is told by its text and by how many they are. -/
theorem legible_of_operator
    (proper : token.Proper)
    (isOperator : token.kind ∈ operators)
    (isKind : kind = (if children.length = 1 then .unary
      else if token.kind ∈ connectives then .logical else .binary))
    (below : AllLegible children) :
    (node kind token none children).Legible := by
  have uniform : ∀ operator ∈ operators, operator ∉ Token.variedKinds := by decide
  have listed : kind ∉ unlistedKinds ∧ kind.words token.lexeme = [token.lexeme] := by
    rw [isKind]
    split_ifs <;> exact ⟨by decide, rfl⟩
  have spelled := (proper.eq_description (uniform _ isOperator)).2
  obtain ⟨found, noHeading, noFunction⟩ := find?_operators _ isOperator
  obtain ⟨items, areSketches, allFit, areTrees⟩ := below
  refine ⟨_, sketch?_eq_list listed.1 none, ?_, ?_⟩
  · rw [listed.2, areSketches, spelled]
    simp [Sketch.Fits, Sketch.AllFit, isWord_operator isOperator, allFit]
  · rw [listed.2, areSketches, spelled, List.map_singleton, List.singleton_append, Sketch.tree,
      Sketch.assembled_operation noHeading noFunction]
    simp [Sketch.operation, found, areTrees, mapAll_eq_map, map, isKind,
      proper.essence_eq_symbol rfl (uniform _ isOperator)]

/-- A constant is told by how it is shown. -/
theorem legible_constant
    {value : Constant}
    (proper : token.Proper)
    (spelled : value.SpelledBy token) :
    (node .constant token (some value) []).Legible := by
  obtain ⟨isWord, shown, isToken⟩ := spelled.ofOutline?_eq proper
  refine ⟨.word value.outline, rfl, by rwa [Sketch.Fits], ?_⟩
  simp [Sketch.tree, Sketch.leaf, shown, map, mapAll, isToken]

/-- A variable is told by its name. -/
theorem legible_variable
    (proper : token.Proper)
    (isName : token.kind = .identifier) :
    (node .variable token none []).Legible := by
  obtain ⟨isWord, noConstant⟩ := Constant.ofOutline?_name proper isName
  refine ⟨.word token.lexeme, rfl, by rwa [Sketch.Fits], ?_⟩
  simp [Sketch.tree, Sketch.leaf, noConstant, map, mapAll, (proper.name isName).1]

/-- Parameters are told by their names. -/
theorem legible_parameters
    {names : List Token}
    (areNames : ∀ name ∈ names, name.Proper ∧ name.kind = .identifier) :
    ∃ items, sketches (names.map Statement.parameterRose) = items.map some ∧
      Sketch.AllFit items ∧
      (Sketch.list items).parameters =
        mapAll Token.essence (names.map Statement.parameterRose) := by
  induction names with
  | nil => exact ⟨[], rfl, by simp [Sketch.AllFit], by simp [Sketch.parameters, mapAll]⟩
  | cons name names inductionHypothesis =>
      obtain ⟨items, areSketches, allFit, areTrees⟩ :=
        inductionHypothesis fun other member => areNames other (List.mem_cons_of_mem _ member)
      obtain ⟨proper, isName⟩ := areNames name List.mem_cons_self
      obtain ⟨isWord, -⟩ := Constant.ofOutline?_name proper isName
      refine ⟨.word name.lexeme :: items, ?_, ?_, ?_⟩
      · simp [sketches, areSketches, sketch?, Sketch.ofNode, Statement.parameterRose]
      · simp [Sketch.AllFit, Sketch.Fits, isWord, allFit]
      · rw [Sketch.parameters] at areTrees ⊢
        simp [areTrees, mapAll, map, Statement.parameterRose, (proper.name isName).1]

/-- A function is told by its name, its parameters and its body. -/
theorem legible_function
    {names : List Token}
    {body : Rose}
    (proper : token.Proper)
    (isName : token.kind = .identifier)
    (areNames : ∀ name ∈ names, name.Proper ∧ name.kind = .identifier)
    (below : body.Legible) :
    (node .function token none (names.map Statement.parameterRose ++ [body])).Legible := by
  obtain ⟨items, areSketches, allFit, areTrees⟩ := legible_parameters areNames
  obtain ⟨sketch, isSketch, fits, isTree⟩ := below
  obtain ⟨isWord, -⟩ := Constant.ofOutline?_name proper isName
  refine ⟨.list [.word "fn", .word token.lexeme, .list items, sketch], ?_, ?_, ?_⟩
  · rw [sketches_eq_map] at areSketches
    simp [sketch?, sketches_eq_map, areSketches, isSketch, Sketch.ofNode, Function.comp_def]
  · simp only [Sketch.Fits, Sketch.AllFit, and_true]
    exact ⟨isWord_keyword .fnWord, isWord, allFit, fits⟩
  · rw [Sketch.tree, Sketch.assembled_function]
    simp [Sketch.trees, areTrees, isTree, map, mapAll, (proper.name isName).1]

end Nodes

end Rose

/-! ## Phrases -/

open Rose (Legible AllLegible)

/-- The tokens after an expression are proper if all tokens are. -/
theorem Expression.Derives.proper_rest
    {form : Expression.Form}
    {input rest : List Token}
    {tree : form.Tree}
    (derivation : Derives form input rest tree)
    (proper : ∀ token ∈ input, token.Proper) :
    ∀ token ∈ rest, token.Proper := by
  obtain ⟨taken, rfl, -⟩ := derivation.exists_taken
  exact fun token member => proper token (List.mem_append_right taken member)

namespace Expression

/-- The layouts of what has a form can be told from their sketches. -/
def Form.Legible : (form : Form) → form.Tree → Prop
  | .arguments, expressions => AllLegible (roses expressions)
  | .items, expressions => AllLegible (roses expressions)
  | .full, expression => expression.rose.Legible
  | .operation _, expression => expression.rose.Legible
  | .unary, expression => expression.rose.Legible
  | .application, expression => expression.rose.Legible
  | .primary, expression => expression.rose.Legible

/-- Operands with the operator between them. -/
theorem rose_join
    {strength : Strength}
    {operator : Token}
    (isOperator : operator.kind ∈ strength.operators)
    (left right : Expression) :
    (strength.join operator left right).rose =
      .node (if operator.kind ∈ connectives then .logical else .binary) operator none
        [left.rose, right.rose] := by
  have only : operator.kind ∈ connectives ↔
      strength = .disjunction ∨ strength = .conjunction := by
    simp only [connectives, List.mem_cons, List.not_mem_nil, or_false]
    constructor
    · rintro (isKind | isKind) <;> rw [isKind] at isOperator
      · exact .inl (Strength.eq_of_mem_operators isOperator (by decide))
      · exact .inr (Strength.eq_of_mem_operators isOperator (by decide))
    · rintro (rfl | rfl)
      · exact .inl (List.mem_singleton.mp isOperator)
      · exact .inr (List.mem_singleton.mp isOperator)
  cases strength <;> simp [only, Strength.join, rose]

/-- Operands with the operator between them are told by its text. -/
theorem legible_join
    {strength : Strength}
    {operator : Token}
    {left right : Expression}
    (proper : operator.Proper)
    (isOperator : operator.kind ∈ strength.operators)
    (leftLegible : left.rose.Legible)
    (rightLegible : right.rose.Legible) :
    (strength.join operator left right).rose.Legible := by
  have known : operator.kind ∈ operators := by
    have inside : strength ∈ Strength.all := by cases strength <;> decide
    exact List.mem_append_right _ (List.mem_flatMap.mpr ⟨strength, inside, isOperator⟩)
  rw [rose_join isOperator]
  exact Rose.legible_of_operator proper known rfl (leftLegible.pair rightLegible)

/-- The layout of an expression of the grammar can be told from its sketch. -/
theorem Derives.legible
    {form : Form}
    {input rest : List Token}
    {tree : form.Tree}
    (derivation : Derives form input rest tree)
    (proper : ∀ token ∈ input, token.Proper) :
    form.Legible tree := by
  induction derivation with
  | assignment isName isEqual value inductionHypothesis =>
      simp only [List.forall_mem_cons] at proper
      have found : headings.lookup "assign" = some ⟨.assignment, none, 0⟩ := rfl
      exact Rose.legible_of_name proper.1 isName found
        (inductionHypothesis proper.2.2).single rfl
  | operation _ inductionHypothesis => exact inductionHypothesis proper
  | joined left isOperator right leftHypothesis rightHypothesis =>
      have behind := left.proper_rest proper
      simp only [List.forall_mem_cons] at behind
      exact legible_join behind.1 isOperator (leftHypothesis proper) (rightHypothesis behind.2)
  | tighter _ inductionHypothesis => exact inductionHypothesis proper
  | operand _ inductionHypothesis => exact inductionHypothesis proper
  | @signed operator _ _ _ isSign operand inductionHypothesis =>
      simp only [List.forall_mem_cons] at proper
      have known : operator.kind ∈ operators := by
        rcases isSign with isKind | isKind <;> rw [isKind] <;> decide
      exact Rose.legible_of_operator proper.1 known rfl (inductionHypothesis proper.2).single
  | unsigned _ inductionHypothesis => exact inductionHypothesis proper
  | call callee opens arguments closes calleeHypothesis argumentsHypothesis =>
      have behind := callee.proper_rest proper
      simp only [List.forall_mem_cons] at behind
      have closing := arguments.proper_rest behind.2 _ List.mem_cons_self
      have found : headings.lookup "call" = some ⟨.call, some (symbol .rightParen), 0⟩ := rfl
      exact Rose.legible_of_symbol closing closes (by decide) found
        ((argumentsHypothesis behind.2).cons (calleeHypothesis proper)) (padded_zero _).symm
  | index target opens position closes targetHypothesis positionHypothesis =>
      have behind := target.proper_rest proper
      simp only [List.forall_mem_cons] at behind
      have closing := position.proper_rest behind.2 _ List.mem_cons_self
      have found : headings.lookup "index" = some ⟨.index, some (symbol .rightBracket), 0⟩ := rfl
      exact Rose.legible_of_symbol closing closes (by decide) found
        ((targetHypothesis proper).pair (positionHypothesis behind.2)) rfl
  | simple _ inductionHypothesis => exact inductionHypothesis proper
  | constant spelled =>
      exact Rose.legible_constant (proper _ List.mem_cons_self) spelled
  | mention isName => exact Rose.legible_variable (proper _ List.mem_cons_self) isName
  | group opens inner closes inductionHypothesis =>
      simp only [List.forall_mem_cons] at proper
      have found : headings.lookup "group" = some ⟨.group, some (symbol .leftParen), 0⟩ := rfl
      exact Rose.legible_of_symbol proper.1 opens (by decide) found
        (inductionHypothesis proper.2).single rfl
  | array opens elements closes inductionHypothesis =>
      simp only [List.forall_mem_cons] at proper
      have found : headings.lookup "array" = some ⟨.array, some (symbol .leftBracket), 0⟩ := rfl
      exact Rose.legible_of_symbol proper.1 opens (by decide) found (inductionHypothesis proper.2)
        (padded_zero _).symm
  | nothing => exact Rose.allLegible_nil
  | listed _ inductionHypothesis => exact inductionHypothesis proper
  | last _ inductionHypothesis => exact (inductionHypothesis proper).single
  | more first comma others inductionHypothesis othersHypothesis =>
      have behind := first.proper_rest proper
      simp only [List.forall_mem_cons] at behind
      exact (othersHypothesis behind.2).cons (inductionHypothesis proper)

end Expression

namespace Statement

/-- The tokens after a statement are proper if all tokens are. -/
theorem Derives.proper_rest
    {form : Form}
    {input rest : List Token}
    {tree : form.Tree}
    (derivation : Derives form input rest tree)
    (proper : ∀ token ∈ input, token.Proper) :
    ∀ token ∈ rest, token.Proper := by
  obtain ⟨taken, rfl, -⟩ := derivation.exists_taken
  exact fun token member => proper token (List.mem_append_right taken member)

theorem Names.areNames
    {input rest names : List Token}
    (derivation : Names input rest names)
    (proper : ∀ token ∈ input, token.Proper) :
    (∀ name ∈ names, name.Proper ∧ name.kind = .identifier) ∧ ∀ token ∈ rest, token.Proper := by
  induction derivation with
  | last isName =>
      simp only [List.forall_mem_cons] at proper
      exact ⟨by simp [proper.1, isName], proper.2⟩
  | more isName comma _ inductionHypothesis =>
      simp only [List.forall_mem_cons] at proper
      obtain ⟨areNames, behind⟩ := inductionHypothesis proper.2.2
      exact ⟨List.forall_mem_cons.mpr ⟨⟨proper.1, isName⟩, areNames⟩, behind⟩

/-- Parameters are names, and what follows them is proper if they are. -/
theorem Parameters.areNames
    {input rest names : List Token}
    (derivation : Parameters input rest names)
    (proper : ∀ token ∈ input, token.Proper) :
    (∀ name ∈ names, name.Proper ∧ name.kind = .identifier) ∧ ∀ token ∈ rest, token.Proper := by
  cases derivation with
  | nothing => exact ⟨by simp, proper⟩
  | listed names => exact names.areNames proper

/-- The layouts of what has a form can be told from their sketches. -/
def Form.Legible : (form : Form) → form.Tree → Prop
  | .declarations, phrases => AllLegible (roses phrases)
  | .declaration, phrase => phrase.rose.Legible
  | .statement, phrase => phrase.rose.Legible

/-- A block is told from its sketch. -/
theorem legible_block
    {brace : Token}
    {body : List Statement}
    (proper : brace.Proper)
    (isBrace : brace.kind = .leftBrace)
    (below : AllLegible (roses body)) :
    (Rose.node .block brace none (roses body)).Legible := by
  have found : headings.lookup "block" = some ⟨.block, some (symbol .leftBrace), 0⟩ := rfl
  exact Rose.legible_of_symbol proper isBrace (by decide) found below (padded_zero _).symm

/-- The layout of a statement of the grammar can be told from its sketch. -/
theorem Derives.legible
    {form : Form}
    {input rest : List Token}
    {tree : form.Tree}
    (derivation : Derives form input rest tree)
    (proper : ∀ token ∈ input, token.Proper) :
    form.Legible tree := by
  have varFound : headings.lookup "var" = some ⟨.declaration, none, 1⟩ := rfl
  have ifFound :
      headings.lookup "if" = some ⟨.branch, some (symbol (.keyword .ifWord)), 3⟩ := rfl
  have returnFound :
      headings.lookup "return" = some ⟨.giveBack, some (symbol (.keyword .returnWord)), 1⟩ := rfl
  induction derivation with
  | bare word isName =>
      simp only [List.forall_mem_cons] at proper
      exact Rose.legible_of_name proper.2.1 isName varFound
        Rose.allLegible_nil rfl
  | initialized word isName equals value =>
      simp only [List.forall_mem_cons] at proper
      exact Rose.legible_of_name proper.2.1 isName varFound
        (value.legible proper.2.2.2).single rfl
  | plain _ inductionHypothesis => exact inductionHypothesis proper
  | function word isName opens parameters closes isBrace body ends inductionHypothesis =>
      simp only [List.forall_mem_cons] at proper
      obtain ⟨areNames, behind⟩ := parameters.areNames proper.2.2.2
      simp only [List.forall_mem_cons] at behind
      exact Rose.legible_function proper.2.1 isName areNames
        (legible_block behind.2.1 isBrace (inductionHypothesis behind.2.2))
  | echo isWord value =>
      simp only [List.forall_mem_cons] at proper
      have found :
          headings.lookup "echo" = some ⟨.echo, some (symbol (.keyword .echoWord)), 0⟩ := rfl
      exact Rose.legible_of_symbol proper.1 isWord (by decide) found
        (value.legible proper.2).single rfl
  | branch isWord opens condition closes _ inductionHypothesis =>
      simp only [List.forall_mem_cons] at proper
      have behind := condition.proper_rest proper.2.2
      simp only [List.forall_mem_cons] at behind
      exact Rose.legible_of_symbol proper.1 isWord (by decide) ifFound
        (Rose.Legible.pair (condition.legible proper.2.2) (inductionHypothesis behind.2)) rfl
  | choice isWord opens condition closes consequence isElse _ consequenceHypothesis
      alternativeHypothesis =>
      simp only [List.forall_mem_cons] at proper
      have behind := condition.proper_rest proper.2.2
      simp only [List.forall_mem_cons] at behind
      have following := consequence.proper_rest behind.2
      simp only [List.forall_mem_cons] at following
      exact Rose.legible_of_symbol proper.1 isWord (by decide) ifFound
        (.cons (Rose.Legible.pair (consequenceHypothesis behind.2)
          (alternativeHypothesis following.2)) (condition.legible proper.2.2)) rfl
  | loop isWord opens condition closes _ inductionHypothesis =>
      simp only [List.forall_mem_cons] at proper
      have behind := condition.proper_rest proper.2.2
      simp only [List.forall_mem_cons] at behind
      have found :
          headings.lookup "while" = some ⟨.loop, some (symbol (.keyword .whileWord)), 0⟩ := rfl
      exact Rose.legible_of_symbol proper.1 isWord (by decide) found
        (Rose.Legible.pair (condition.legible proper.2.2) (inductionHypothesis behind.2)) rfl
  | giveNothing isWord =>
      simp only [List.forall_mem_cons] at proper
      exact Rose.legible_of_symbol proper.1 isWord (by decide) returnFound Rose.allLegible_nil rfl
  | giveBack isWord value =>
      simp only [List.forall_mem_cons] at proper
      exact Rose.legible_of_symbol proper.1 isWord (by decide) returnFound
        (value.legible proper.2).single rfl
  | block isBrace _ ends inductionHypothesis =>
      simp only [List.forall_mem_cons] at proper
      exact legible_block proper.1 isBrace (inductionHypothesis proper.2)
  | discard value ends =>
      have semicolon := value.proper_rest proper _ List.mem_cons_self
      have found : headings.lookup "expr" = some ⟨.discard, some (symbol .semicolon), 0⟩ := rfl
      exact Rose.legible_of_symbol semicolon ends (by decide) found
        (value.legible proper).single rfl
  | done => exact Rose.allLegible_nil
  | next first others inductionHypothesis othersHypothesis =>
      exact (othersHypothesis (first.proper_rest proper)).cons (inductionHypothesis proper)

end Statement

/-- The layout of a program can be told from its sketch. -/
theorem legible_programRose
    {ending : Token}
    {tokens rest : List Token}
    {trees : List Statement}
    (isEnding : ending.essence = .placeless .endOfInput "")
    (derivation : Statement.Derives .declarations tokens rest trees)
    (proper : ∀ token ∈ tokens, token.Proper) :
    (programRose ending trees).Legible := by
  have found :
      headings.lookup "list" = some ⟨.statements, some (.placeless .endOfInput ""), 0⟩ := rfl
  rw [← isEnding] at found
  exact Rose.legible_of_word found (derivation.legible proper) (padded_zero _).symm

end Tree

/-! ## Sources -/

/-- Whether no number of the source is beyond the finite doubles. -/
def hasFiniteNumbers (source : String) : Bool :=
  (tokensOf source).body.all Token.isFinite

theorem proper_of_mem_tokensOf
    {source : String}
    (finite : hasFiniteNumbers source = true) :
    ∀ token ∈ (tokensOf source).body, token.Proper := fun token member =>
  ⟨Token.Lexeme.iff_spelled.mpr (Token.Scan.spelled_of_mem_tokens member),
    List.all_eq_true.mp finite token member⟩

namespace Machine

variable {machine otherMachine : Machine} {source other : String}

/-- The outline of what is read from a source is the text of a sketch that tells the tree. -/
theorem exists_sketch
    (formed : machine.arena.WellFormed)
    (faultless : (machine.readSource source).1.2 = [])
    (finite : hasFiniteNumbers source = true) :
    let program := machine.readSource source
    ∃ tree : Tree.Rose, ∃ sketch : Tree.Sketch,
      tree.StandsAt program.2.arena (some program.1.1) ∧ sketch.Fits ∧
        sketch.tree = tree.map Token.essence ∧
        (program.2.arena.outline (some program.1.1)).toList = sketch.chars := by
  intro program
  rw [readSource_faults, ← List.isEmpty_iff] at faultless
  obtain ⟨-, trees, derivation, nearest⟩ := derives_of_accepts faultless
  obtain ⟨-, -, stands⟩ :=
    Tree.readProgram_of_derives (tokensOf source) derivation nearest machine.arena
  obtain ⟨sketch, isSketch, text⟩ :=
    stands.outline_eq (Tree.wellFormed_readProgram rfl formed)
  have isEnding : (tokensOf source).ending.essence = .placeless .endOfInput "" := rfl
  obtain ⟨_, same, fits, isTree⟩ :=
    Tree.legible_programRose isEnding derivation (proper_of_mem_tokensOf finite)
  obtain rfl := Option.some.inj (isSketch.symm.trans same)
  exact ⟨_, sketch, stands, fits, isTree, text⟩

/-- Sources that are read without faults and have no number beyond the finite doubles have the
same outline only if their trees are the same, apart from the places of the tokens and from the
spelling of the numbers. -/
theorem readSource_outline_injective
    (formed : machine.arena.WellFormed)
    (otherFormed : otherMachine.arena.WellFormed)
    (faultless : (machine.readSource source).1.2 = [])
    (otherFaultless : (otherMachine.readSource other).1.2 = [])
    (finite : hasFiniteNumbers source = true)
    (otherFinite : hasFiniteNumbers other = true) :
    let program := machine.readSource source
    let otherProgram := otherMachine.readSource other
    program.2.arena.outline (some program.1.1) =
        otherProgram.2.arena.outline (some otherProgram.1.1) →
      ∃ tree otherTree : Tree.Rose,
        tree.StandsAt program.2.arena (some program.1.1) ∧
        otherTree.StandsAt otherProgram.2.arena (some otherProgram.1.1) ∧
        tree.map Token.essence = otherTree.map Token.essence := by
  intro program otherProgram same
  obtain ⟨tree, sketch, stands, fits, isTree, text⟩ := exists_sketch formed faultless finite
  obtain ⟨otherTree, otherSketch, otherStands, otherFits, isOtherTree, otherText⟩ :=
    exists_sketch otherFormed otherFaultless otherFinite
  have sameText : sketch.chars = otherSketch.chars := by
    rw [← text, ← otherText]
    exact congrArg String.toList same
  obtain rfl := Tree.Sketch.chars_injective fits otherFits sameText
  exact ⟨tree, otherTree, stands, otherStands, isTree.symm.trans isOtherTree⟩

/-- Blank characters, a comment and the zeros of numbers are not seen in the outline, and all
else of the trees is the same. -/
theorem readSource_outline_injective_of_respelled :
    let source := "fn f(a, b) \x7b return -a - 1.50; \x7d f(2, \"x\");"
    let other := "fn f(a,b)\x7breturn -a-01.5;\x7d  // the same\nf(2.0,\"x\");"
    let machine := Machine.bare (.ofFiles ⟨[]⟩ [])
    let program := machine.readSource source
    let otherProgram := machine.readSource other
    let outline := program.2.arena.outline (some program.1.1)
    outline = "(list (fn f (a b) (block (return (- (- a) 1.5)))) (expr (call f 2 \"x\")))" ∧
      outline = otherProgram.2.arena.outline (some otherProgram.1.1) ∧
      ∃ tree otherTree : Tree.Rose,
        tree.StandsAt program.2.arena (some program.1.1) ∧
        otherTree.StandsAt otherProgram.2.arena (some otherProgram.1.1) ∧
        tree.map Token.essence = otherTree.map Token.essence := by
  intro source other machine program otherProgram outline
  have formed : machine.arena.WellFormed := Tree.Arena.wellFormed_empty
  have faultless : program.1.2 = [] := by decide +kernel
  have otherFaultless : otherProgram.1.2 = [] := by decide +kernel
  have finite : hasFiniteNumbers source = true := by decide +kernel
  have otherFinite : hasFiniteNumbers other = true := by decide +kernel
  have same : outline = otherProgram.2.arena.outline (some otherProgram.1.1) := by decide +kernel
  exact ⟨by decide +kernel, same, readSource_outline_injective formed formed faultless
    otherFaultless finite otherFinite same⟩

end Machine
end Scripting
