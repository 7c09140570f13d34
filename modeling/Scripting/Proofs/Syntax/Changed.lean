import Scripting.Proofs.Syntax.Else

/-!
# Phrases with changed tokens

The grammar looks at nothing but the kinds and the literals of tokens.  So tokens can
be changed in a phrase, if their kinds and literals stay, and the phrase has the same
syntax with changed tokens (`Derives.map`).
-/

namespace Scripting
namespace Tree

namespace Rose

mutual

/-- The tree with changed tokens. -/
def map (change : Token → Token) : Rose → Rose
  | absent => absent
  | node kind token constant children =>
      node kind (change token) constant (mapAll change children)

/-- The trees with changed tokens. -/
def mapAll (change : Token → Token) : List Rose → List Rose
  | [] => []
  | tree :: trees => tree.map change :: mapAll change trees

end

mutual

@[simp] theorem map_id : ∀ tree : Rose, tree.map id = tree
  | absent => by simp [map]
  | node _ _ _ children => by simp [map, mapAll_id children]

@[simp] theorem mapAll_id : ∀ trees : List Rose, mapAll id trees = trees
  | [] => by simp [mapAll]
  | tree :: trees => by simp [mapAll, map_id tree, mapAll_id trees]

end

@[simp] theorem mapAll_append (change : Token → Token) (trees others : List Rose) :
    mapAll change (trees ++ others) = mapAll change trees ++ mapAll change others := by
  induction trees with
  | nil => simp [mapAll]
  | cons tree trees inductionHypothesis => simp [mapAll, inductionHypothesis]

end Rose

namespace Expression

variable (change : Token → Token)

mutual

/-- The expression with changed tokens. -/
def map : Expression → Expression
  | .constant token value => .constant (change token) value
  | .mention name => .mention (change name)
  | .group paren inner => .group (change paren) inner.map
  | .array bracket items => .array (change bracket) (mapAll items)
  | .unary operator operand => .unary (change operator) operand.map
  | .binary operator left right => .binary (change operator) left.map right.map
  | .logical operator left right => .logical (change operator) left.map right.map
  | .assignment name value => .assignment (change name) value.map
  | .call paren callee arguments => .call (change paren) callee.map (mapAll arguments)
  | .index bracket target position => .index (change bracket) target.map position.map

/-- The expressions with changed tokens. -/
def mapAll : List Expression → List Expression
  | [] => []
  | expression :: others => expression.map :: mapAll others

end

mutual

/-- The layout of an expression with changed tokens is its layout with changed tokens. -/
theorem rose_map :
    ∀ expression : Expression, (expression.map change).rose = expression.rose.map change
  | .constant .. => by simp [map, rose, Rose.map, Rose.mapAll]
  | .mention .. => by simp [map, rose, Rose.map, Rose.mapAll]
  | .group _ inner => by simp [map, rose, Rose.map, Rose.mapAll, rose_map inner]
  | .array _ items => by simp [map, rose, Rose.map, roses_mapAll items]
  | .unary _ operand => by simp [map, rose, Rose.map, Rose.mapAll, rose_map operand]
  | .binary _ left right => by
      simp [map, rose, Rose.map, Rose.mapAll, rose_map left, rose_map right]
  | .logical _ left right => by
      simp [map, rose, Rose.map, Rose.mapAll, rose_map left, rose_map right]
  | .assignment _ value => by simp [map, rose, Rose.map, Rose.mapAll, rose_map value]
  | .call _ callee arguments => by
      simp [map, rose, Rose.map, Rose.mapAll, rose_map callee, roses_mapAll arguments]
  | .index _ target position => by
      simp [map, rose, Rose.map, Rose.mapAll, rose_map target, rose_map position]

/-- The same of expressions one by one. -/
theorem roses_mapAll :
    ∀ expressions : List Expression,
      roses (mapAll change expressions) = Rose.mapAll change (roses expressions)
  | [] => by simp [mapAll, Rose.mapAll]
  | expression :: others => by
      simp [mapAll, Rose.mapAll, rose_map expression, roses_mapAll others]

end

theorem optionalRose_map (expression : Option Expression) :
    optionalRose (expression.map (Expression.map change)) =
      (optionalRose expression).map change := by
  cases expression with
  | none => simp [optionalRose, Rose.map]
  | some expression => exact rose_map change expression

/-- The syntax of what has a form, with changed tokens. -/
def Form.map : (form : Form) → form.Tree → form.Tree
  | .arguments, expressions => mapAll change expressions
  | .items, expressions => mapAll change expressions
  | .full, expression => expression.map change
  | .operation _, expression => expression.map change
  | .unary, expression => expression.map change
  | .application, expression => expression.map change
  | .primary, expression => expression.map change

/-- Tokens can be changed in an expression if their kinds and literals stay. -/
theorem Derives.map
    (kinds : ∀ token, (change token).kind = token.kind)
    (literals : ∀ token, (change token).literal = token.literal)
    {form : Form}
    {input rest : List Token}
    {tree : form.Tree}
    (derivation : Derives form input rest tree) :
    Derives form (input.map change) (rest.map change) (form.map change tree) := by
  induction derivation with
  | assignment named equals _ value =>
      exact .assignment ((kinds _).trans named) ((kinds _).trans equals) value
  | operation _ expression => exact .operation expression
  | @joined strength tighter operator _ _ _ left right _ member _ leftMapped rightMapped =>
      have joined := Derives.joined leftMapped ((kinds operator).symm ▸ member) rightMapped
      have same : Form.map change (.operation (strength :: tighter))
            (strength.join operator left right) =
          strength.join (change operator) (left.map change) (right.map change) := by
        cases strength <;> simp [Form.map, Strength.join, Expression.map]
      rw [same]
      exact joined
  | tighter _ expression => exact .tighter expression
  | operand _ expression => exact .operand expression
  | signed sign _ operand => exact .signed ((kinds _).symm ▸ sign) operand
  | unsigned _ expression => exact .unsigned expression
  | call _ opening _ closing callee arguments =>
      exact .call callee ((kinds _).trans opening) arguments ((kinds _).trans closing)
  | index _ opening _ closing target position =>
      exact .index target ((kinds _).trans opening) position ((kinds _).trans closing)
  | simple _ expression => exact .simple expression
  | constant spelled =>
      refine .constant ?_
      cases spelled with
      | null kind => exact .null ((kinds _).trans kind)
      | truth kind => exact .truth ((kinds _).trans kind)
      | falsehood kind => exact .falsehood ((kinds _).trans kind)
      | literal kind found => exact .literal ((kinds _).symm ▸ kind) ((literals _).trans found)
  | mention named => exact .mention ((kinds _).trans named)
  | group opening _ closing inner =>
      exact .group ((kinds _).trans opening) inner ((kinds _).trans closing)
  | array opening _ closing elements =>
      exact .array ((kinds _).trans opening) elements ((kinds _).trans closing)
  | nothing => exact .nothing
  | listed _ items => exact .listed items
  | last _ expression => exact .last expression
  | more _ comma _ expression others => exact .more expression ((kinds _).trans comma) others

end Expression

namespace Statement

open Expression (optionalRose_map)

variable (change : Token → Token)

mutual

/-- The statement with changed tokens. -/
def map : Statement → Statement
  | .declaration name initializer =>
      .declaration (change name) (initializer.map (Expression.map change))
  | .echo keyword value => .echo (change keyword) (value.map change)
  | .discard semicolon value => .discard (change semicolon) (value.map change)
  | .block brace body => .block (change brace) (mapAll body)
  | .branch keyword condition consequence =>
      .branch (change keyword) (condition.map change) consequence.map
  | .choice keyword condition consequence alternative =>
      .choice (change keyword) (condition.map change) consequence.map alternative.map
  | .loop keyword condition body => .loop (change keyword) (condition.map change) body.map
  | .function name parameters brace body =>
      .function (change name) (parameters.map change) (change brace) (mapAll body)
  | .giveBack keyword value =>
      .giveBack (change keyword) (value.map (Expression.map change))

/-- The statements with changed tokens. -/
def mapAll : List Statement → List Statement
  | [] => []
  | statement :: others => statement.map :: mapAll others

end

theorem mapAll_parameters (parameters : List Token) :
    Rose.mapAll change (parameters.map parameterRose) =
      (parameters.map change).map parameterRose := by
  induction parameters with
  | nil => rfl
  | cons name others inductionHypothesis =>
      simp [Rose.mapAll, inductionHypothesis, parameterRose, Rose.map]

mutual

/-- The layout of a statement with changed tokens is its layout with changed tokens. -/
theorem rose_map : ∀ statement : Statement, (statement.map change).rose = statement.rose.map change
  | .declaration .. => by simp [map, rose, Rose.map, Rose.mapAll, optionalRose_map]
  | .echo .. => by simp [map, rose, Rose.map, Rose.mapAll, Expression.rose_map]
  | .discard .. => by simp [map, rose, Rose.map, Rose.mapAll, Expression.rose_map]
  | .block _ body => by simp [map, rose, Rose.map, roses_mapAll body]
  | .branch _ _ consequence => by
      simp [map, rose, Rose.map, Rose.mapAll, Expression.rose_map, rose_map consequence]
  | .choice _ _ consequence alternative => by
      simp [map, rose, Rose.map, Rose.mapAll, Expression.rose_map, rose_map consequence,
        rose_map alternative]
  | .loop _ _ body => by
      simp [map, rose, Rose.map, Rose.mapAll, Expression.rose_map, rose_map body]
  | .function _ _ _ body => by
      simp [map, rose, Rose.map, Rose.mapAll, mapAll_parameters, roses_mapAll body]
  | .giveBack .. => by simp [map, rose, Rose.map, Rose.mapAll, optionalRose_map]

/-- The same of statements one by one. -/
theorem roses_mapAll :
    ∀ statements : List Statement,
      roses (mapAll change statements) = Rose.mapAll change (roses statements)
  | [] => by simp [mapAll, Rose.mapAll]
  | statement :: others => by
      simp [mapAll, Rose.mapAll, rose_map statement, roses_mapAll others]

end

theorem endsOpen_map : ∀ statement : Statement, (statement.map change).endsOpen = statement.endsOpen
  | .choice _ _ _ alternative => by simp [map, endsOpen, endsOpen_map alternative]
  | .loop _ _ body => by simp [map, endsOpen, endsOpen_map body]
  | .declaration .. => by simp [map, endsOpen]
  | .echo .. => by simp [map, endsOpen]
  | .discard .. => by simp [map, endsOpen]
  | .block .. => by simp [map, endsOpen]
  | .branch .. => by simp [map, endsOpen]
  | .function .. => by simp [map, endsOpen]
  | .giveBack .. => by simp [map, endsOpen]

mutual

theorem elseNearest_map :
    ∀ statement : Statement, (statement.map change).ElseNearest ↔ statement.ElseNearest
  | .block _ body => by simp [map, ElseNearest, allElseNearest_mapAll body]
  | .branch _ _ consequence => by simp [map, ElseNearest, elseNearest_map consequence]
  | .choice _ _ consequence alternative => by
      simp [map, ElseNearest, endsOpen_map, elseNearest_map consequence,
        elseNearest_map alternative]
  | .loop _ _ body => by simp [map, ElseNearest, elseNearest_map body]
  | .function _ _ _ body => by simp [map, ElseNearest, allElseNearest_mapAll body]
  | .declaration .. => by simp [map, ElseNearest]
  | .echo .. => by simp [map, ElseNearest]
  | .discard .. => by simp [map, ElseNearest]
  | .giveBack .. => by simp [map, ElseNearest]

theorem allElseNearest_mapAll :
    ∀ statements : List Statement,
      AllElseNearest (mapAll change statements) ↔ AllElseNearest statements
  | [] => by simp [mapAll]
  | statement :: others => by
      simp [mapAll, elseNearest_map statement, allElseNearest_mapAll others]

end

/-- The syntax of what has a form, with changed tokens. -/
def Form.map : (form : Form) → form.Tree → form.Tree
  | .declarations, trees => mapAll change trees
  | .declaration, tree => tree.map change
  | .statement, tree => tree.map change

theorem Names.map
    (kinds : ∀ token, (change token).kind = token.kind)
    {input rest names : List Token}
    (derivation : Names input rest names) :
    Names (input.map change) (rest.map change) (names.map change) := by
  induction derivation with
  | last named => exact .last ((kinds _).trans named)
  | more named comma _ others =>
      exact .more ((kinds _).trans named) ((kinds _).trans comma) others

theorem Parameters.map
    (kinds : ∀ token, (change token).kind = token.kind)
    {input rest names : List Token}
    (derivation : Parameters input rest names) :
    Parameters (input.map change) (rest.map change) (names.map change) := by
  cases derivation with
  | nothing => exact .nothing
  | listed names => exact .listed (names.map change kinds)

/-- Tokens can be changed in statements if their kinds and literals stay. -/
theorem Derives.map
    (kinds : ∀ token, (change token).kind = token.kind)
    (literals : ∀ token, (change token).literal = token.literal)
    {form : Form}
    {input rest : List Token}
    {tree : form.Tree}
    (derivation : Derives form input rest tree) :
    Derives form (input.map change) (rest.map change) (form.map change tree) := by
  have of {token : Token} {kind : Token.Kind} (is : token.kind = kind) :
      (change token).kind = kind := (kinds token).trans is
  induction derivation with
  | bare word named semicolon => exact .bare (of word) (of named) (of semicolon)
  | initialized word named equals value semicolon =>
      exact .initialized (of word) (of named) (of equals) (value.map change kinds literals)
        (of semicolon)
  | plain _ statement => exact .plain statement
  | function word named opening parameters closing brace _ ending body =>
      exact .function (of word) (of named) (of opening) (parameters.map change kinds) (of closing)
        (of brace) body (of ending)
  | echo word value semicolon =>
      exact .echo (of word) (value.map change kinds literals) (of semicolon)
  | branch word opening condition closing _ consequence =>
      exact .branch (of word) (of opening) (condition.map change kinds literals) (of closing)
        consequence
  | choice word opening condition closing _ other _ consequence alternative =>
      exact .choice (of word) (of opening) (condition.map change kinds literals) (of closing)
        consequence (of other) alternative
  | loop word opening condition closing _ body =>
      exact .loop (of word) (of opening) (condition.map change kinds literals) (of closing) body
  | giveNothing word semicolon => exact .giveNothing (of word) (of semicolon)
  | giveBack word value semicolon =>
      exact .giveBack (of word) (value.map change kinds literals) (of semicolon)
  | block brace _ ending body => exact .block (of brace) body (of ending)
  | discard value semicolon => exact .discard (value.map change kinds literals) (of semicolon)
  | done => exact .done
  | next _ _ first others => exact .next first others

end Statement
end Tree
end Scripting
