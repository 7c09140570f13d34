import Scripting.Proofs.Syntax.Phrases

/-!
# The grammar

The grammar of the language as derivations.  `Derives form input rest tree` says
that the tokens of `input` before `rest` are a phrase of the given form whose syntax
is `tree`.  Operators between operands bind to the left because their rule is
recursive on the left, and each level of strength has the next one as its right
operand; an assignment is recursive on the right, after a bare name.

The grammar leaves open to which `if` an `else` belongs; the nearest one is singled
out apart from it.

Main statements: a phrase takes at least one token unless its form allows it to be
empty (`Derives.length_le`), and a derivation does not look at what follows it
(`Derives.exists_taken`).
-/

namespace Scripting
namespace Tree

open Token (Kind)

/-- The strengths of the operators between two operands. -/
inductive Strength where
  | disjunction | conjunction | equality | comparison | sum | product
  deriving DecidableEq

namespace Strength

/-- All strengths, the loosest first. -/
def all : List Strength :=
  [disjunction, conjunction, equality, comparison, sum, product]

/-- The operators of a strength. -/
def operators : Strength → List Kind
  | disjunction => [.keyword .orWord]
  | conjunction => [.keyword .andWord]
  | equality => [.equalEqual, .bangEqual]
  | comparison => [.less, .lessEqual, .greater, .greaterEqual]
  | sum => [.plus, .minus]
  | product => [.star, .slash]

/-- An operator of a strength with its two operands. -/
def join : Strength → Token → Expression → Expression → Expression
  | disjunction, operator, left, right => .logical operator left right
  | conjunction, operator, left, right => .logical operator left right
  | equality, operator, left, right => .binary operator left right
  | comparison, operator, left, right => .binary operator left right
  | sum, operator, left, right => .binary operator left right
  | product, operator, left, right => .binary operator left right

theorem all_nodup : all.Nodup := by
  decide

/-- An operator has one strength. -/
theorem eq_of_mem_operators
    {strength other : Strength}
    {kind : Kind}
    (member : kind ∈ strength.operators)
    (otherMember : kind ∈ other.operators) :
    strength = other := by
  cases strength <;> cases other <;> simp_all [operators] <;> grind

end Strength

/-- The constants that are written as a single token. -/
inductive Constant.SpelledBy : Constant → Token → Prop
  | null {token : Token} :
      token.kind = .keyword .nullWord → SpelledBy .null token
  | truth {token : Token} :
      token.kind = .keyword .trueWord → SpelledBy (.bool true) token
  | falsehood {token : Token} :
      token.kind = .keyword .falseWord → SpelledBy (.bool false) token
  | literal {token : Token} {literal : Token.Literal} :
      token.kind = .number ∨ token.kind = .text →
      token.literal = some literal →
      SpelledBy (.ofLiteral literal) token

namespace Expression

/-- The forms of expressions and of what stands between commas. -/
inductive Form where
  | full
  /-- Operands and operators of the given strengths, the loosest first. -/
  | operation (strengths : List Strength)
  | unary | application | primary
  /-- Any number of expressions between commas. -/
  | arguments
  /-- One or more expressions between commas. -/
  | items

/-- The syntax of what has a form. -/
@[reducible] def Form.Tree : Form → Type
  | .arguments => List Expression
  | .items => List Expression
  | .full => Expression
  | .operation _ => Expression
  | .unary => Expression
  | .application => Expression
  | .primary => Expression

/-- The rules for expressions. -/
inductive Derives : (form : Form) → List Token → List Token → form.Tree → Prop
  | assignment {name equals : Token} {input rest : List Token} {value : Expression} :
      name.kind = .identifier →
      equals.kind = .equal →
      Derives .full input rest value →
      Derives .full (name :: equals :: input) rest (.assignment name value)
  | operation {input rest : List Token} {expression : Expression} :
      Derives (.operation Strength.all) input rest expression →
      Derives .full input rest expression
  | joined {strength : Strength} {tighter : List Strength} {operator : Token}
      {input middle rest : List Token} {left right : Expression} :
      Derives (.operation (strength :: tighter)) input (operator :: middle) left →
      operator.kind ∈ strength.operators →
      Derives (.operation tighter) middle rest right →
      Derives (.operation (strength :: tighter)) input rest (strength.join operator left right)
  | tighter {strength : Strength} {tighter : List Strength} {input rest : List Token}
      {expression : Expression} :
      Derives (.operation tighter) input rest expression →
      Derives (.operation (strength :: tighter)) input rest expression
  | operand {input rest : List Token} {expression : Expression} :
      Derives .unary input rest expression →
      Derives (.operation []) input rest expression
  | signed {operator : Token} {input rest : List Token} {operand : Expression} :
      operator.kind = .bang ∨ operator.kind = .minus →
      Derives .unary input rest operand →
      Derives .unary (operator :: input) rest (.unary operator operand)
  | unsigned {input rest : List Token} {expression : Expression} :
      Derives .application input rest expression →
      Derives .unary input rest expression
  | call {opening closing : Token} {input middle rest : List Token} {callee : Expression}
      {arguments : List Expression} :
      Derives .application input (opening :: middle) callee →
      opening.kind = .leftParen →
      Derives .arguments middle (closing :: rest) arguments →
      closing.kind = .rightParen →
      Derives .application input rest (.call closing callee arguments)
  | index {opening closing : Token} {input middle rest : List Token}
      {target position : Expression} :
      Derives .application input (opening :: middle) target →
      opening.kind = .leftBracket →
      Derives .full middle (closing :: rest) position →
      closing.kind = .rightBracket →
      Derives .application input rest (.index closing target position)
  | simple {input rest : List Token} {expression : Expression} :
      Derives .primary input rest expression →
      Derives .application input rest expression
  | constant {token : Token} {value : Constant} {rest : List Token} :
      value.SpelledBy token →
      Derives .primary (token :: rest) rest (.constant token value)
  | mention {name : Token} {rest : List Token} :
      name.kind = .identifier →
      Derives .primary (name :: rest) rest (.mention name)
  | group {opening closing : Token} {input rest : List Token} {inner : Expression} :
      opening.kind = .leftParen →
      Derives .full input (closing :: rest) inner →
      closing.kind = .rightParen →
      Derives .primary (opening :: input) rest (.group opening inner)
  | array {opening closing : Token} {input rest : List Token} {elements : List Expression} :
      opening.kind = .leftBracket →
      Derives .arguments input (closing :: rest) elements →
      closing.kind = .rightBracket →
      Derives .primary (opening :: input) rest (.array opening elements)
  | nothing {input : List Token} :
      Derives .arguments input input []
  | listed {input rest : List Token} {expressions : List Expression} :
      Derives .items input rest expressions →
      Derives .arguments input rest expressions
  | last {input rest : List Token} {expression : Expression} :
      Derives .full input rest expression →
      Derives .items input rest [expression]
  | more {comma : Token} {input middle rest : List Token} {expression : Expression}
      {others : List Expression} :
      Derives .full input (comma :: middle) expression →
      comma.kind = .comma →
      Derives .items middle rest others →
      Derives .items input rest (expression :: others)

/-- The kinds of the tokens with which primary expressions begin. -/
def simpleOpeners : List Kind :=
  [.keyword .nullWord, .keyword .trueWord, .keyword .falseWord, .number, .text, .identifier,
    .leftParen, .leftBracket]

/-- The kinds of the tokens with which phrases of a form begin. -/
def Form.openers : Form → List Kind
  | .application => simpleOpeners
  | .primary => simpleOpeners
  | _ => .bang :: .minus :: simpleOpeners

theorem Form.simpleOpeners_subset (form : Form) : simpleOpeners ⊆ form.openers := by
  cases form <;> simp [Form.openers]

/-- How many tokens a phrase of a form has at the least. -/
def Form.least : Form → Nat
  | .arguments => 0
  | _ => 1

/-- What is no list of arguments is never empty, and begins with a token that opens
its form. -/
theorem Derives.opens
    {form : Form}
    {input rest : List Token}
    {tree : form.Tree}
    (derivation : Derives form input rest tree)
    (nonempty : form.least = 1) :
    ∃ first others, input = first :: others ∧ first.kind ∈ form.openers := by
  induction derivation with
  | assignment named =>
      exact ⟨_, _, rfl, Form.simpleOpeners_subset _ (by simp [named, simpleOpeners])⟩
  | operation _ inductionHypothesis => exact inductionHypothesis rfl
  | joined _ _ _ inductionHypothesis => exact inductionHypothesis rfl
  | tighter _ inductionHypothesis => exact inductionHypothesis rfl
  | operand _ inductionHypothesis => exact inductionHypothesis rfl
  | signed sign => exact ⟨_, _, rfl, by rcases sign with sign | sign <;> simp [sign, Form.openers]⟩
  | unsigned _ inductionHypothesis =>
      obtain ⟨first, others, rfl, member⟩ := inductionHypothesis rfl
      exact ⟨first, others, rfl, Form.simpleOpeners_subset _ member⟩
  | call _ _ _ _ inductionHypothesis => exact inductionHypothesis rfl
  | index _ _ _ _ inductionHypothesis => exact inductionHypothesis rfl
  | simple _ inductionHypothesis => exact inductionHypothesis rfl
  | constant spelled =>
      refine ⟨_, _, rfl, Form.simpleOpeners_subset _ ?_⟩
      cases spelled with
      | null kind => simp [kind, simpleOpeners]
      | truth kind => simp [kind, simpleOpeners]
      | falsehood kind => simp [kind, simpleOpeners]
      | literal kind => rcases kind with kind | kind <;> simp [kind, simpleOpeners]
  | mention named =>
      exact ⟨_, _, rfl, Form.simpleOpeners_subset _ (by simp [named, simpleOpeners])⟩
  | group opening =>
      exact ⟨_, _, rfl, Form.simpleOpeners_subset _ (by simp [opening, simpleOpeners])⟩
  | array opening =>
      exact ⟨_, _, rfl, Form.simpleOpeners_subset _ (by simp [opening, simpleOpeners])⟩
  | nothing => cases nonempty
  | listed => cases nonempty
  | last _ inductionHypothesis => exact inductionHypothesis rfl
  | more _ _ _ inductionHypothesis => exact inductionHypothesis rfl

/-- A phrase takes at least as many tokens as its form asks for. -/
theorem Derives.length_le
    {form : Form}
    {input rest : List Token}
    {tree : form.Tree}
    (derivation : Derives form input rest tree) :
    rest.length + form.least ≤ input.length := by
  induction derivation <;> simp_all only [Form.least, List.length_cons] <;> omega

/-- A phrase consists of the tokens before the rest, whatever the rest is. -/
theorem Derives.exists_taken
    {form : Form}
    {input rest : List Token}
    {tree : form.Tree}
    (derivation : Derives form input rest tree) :
    ∃ taken, input = taken ++ rest ∧ ∀ other, Derives form (taken ++ other) other tree := by
  induction derivation with
  | assignment named equals _ value =>
      obtain ⟨taken, rfl, again⟩ := value
      exact ⟨_ :: _ :: taken, rfl, fun other => .assignment named equals (again other)⟩
  | operation _ expression =>
      obtain ⟨taken, rfl, again⟩ := expression
      exact ⟨taken, rfl, fun other => .operation (again other)⟩
  | @joined _ _ sign _ _ _ _ _ _ operator _ left right =>
      obtain ⟨rightTaken, rfl, rightAgain⟩ := right
      obtain ⟨leftTaken, rfl, leftAgain⟩ := left
      refine ⟨leftTaken ++ sign :: rightTaken, by simp, fun other => ?_⟩
      rw [List.append_assoc]
      exact .joined (leftAgain _) operator (rightAgain other)
  | tighter _ expression =>
      obtain ⟨taken, rfl, again⟩ := expression
      exact ⟨taken, rfl, fun other => .tighter (again other)⟩
  | operand _ expression =>
      obtain ⟨taken, rfl, again⟩ := expression
      exact ⟨taken, rfl, fun other => .operand (again other)⟩
  | signed sign _ operand =>
      obtain ⟨taken, rfl, again⟩ := operand
      exact ⟨_ :: taken, rfl, fun other => .signed sign (again other)⟩
  | unsigned _ expression =>
      obtain ⟨taken, rfl, again⟩ := expression
      exact ⟨taken, rfl, fun other => .unsigned (again other)⟩
  | @call opening closing _ _ _ _ _ _ opens _ closes callee arguments =>
      obtain ⟨argumentsTaken, rfl, argumentsAgain⟩ := arguments
      obtain ⟨calleeTaken, rfl, calleeAgain⟩ := callee
      refine ⟨calleeTaken ++ opening :: (argumentsTaken ++ [closing]), by simp, fun other => ?_⟩
      rw [List.append_assoc, List.cons_append, List.append_assoc]
      exact .call (calleeAgain _) opens (argumentsAgain _) closes
  | @index opening closing _ _ _ _ _ _ opens _ closes target position =>
      obtain ⟨positionTaken, rfl, positionAgain⟩ := position
      obtain ⟨targetTaken, rfl, targetAgain⟩ := target
      refine ⟨targetTaken ++ opening :: (positionTaken ++ [closing]), by simp, fun other => ?_⟩
      rw [List.append_assoc, List.cons_append, List.append_assoc]
      exact .index (targetAgain _) opens (positionAgain _) closes
  | simple _ expression =>
      obtain ⟨taken, rfl, again⟩ := expression
      exact ⟨taken, rfl, fun other => .simple (again other)⟩
  | constant spelled => exact ⟨[_], rfl, fun other => .constant spelled⟩
  | mention named => exact ⟨[_], rfl, fun other => .mention named⟩
  | @group opening closing _ _ _ opens _ closes inner =>
      obtain ⟨taken, rfl, again⟩ := inner
      refine ⟨opening :: (taken ++ [closing]), by simp, fun other => ?_⟩
      rw [List.cons_append, List.append_assoc]
      exact .group opens (again _) closes
  | @array opening closing _ _ _ opens _ closes elements =>
      obtain ⟨taken, rfl, again⟩ := elements
      refine ⟨opening :: (taken ++ [closing]), by simp, fun other => ?_⟩
      rw [List.cons_append, List.append_assoc]
      exact .array opens (again _) closes
  | nothing => exact ⟨[], rfl, fun other => .nothing⟩
  | listed _ items =>
      obtain ⟨taken, rfl, again⟩ := items
      exact ⟨taken, rfl, fun other => .listed (again other)⟩
  | last _ expression =>
      obtain ⟨taken, rfl, again⟩ := expression
      exact ⟨taken, rfl, fun other => .last (again other)⟩
  | @more between _ _ _ _ _ _ comma _ expression others =>
      obtain ⟨othersTaken, rfl, othersAgain⟩ := others
      obtain ⟨taken, rfl, again⟩ := expression
      refine ⟨taken ++ between :: othersTaken, by simp, fun other => ?_⟩
      rw [List.append_assoc]
      exact .more (again _) comma (othersAgain other)

end Expression

namespace Statement

/-- The rule for names between commas. -/
inductive Names : List Token → List Token → List Token → Prop
  | last {name : Token} {rest : List Token} :
      name.kind = .identifier →
      Names (name :: rest) rest [name]
  | more {name comma : Token} {input rest others : List Token} :
      name.kind = .identifier →
      comma.kind = .comma →
      Names input rest others →
      Names (name :: comma :: input) rest (name :: others)

/-- The rule for the parameters of a function. -/
inductive Parameters : List Token → List Token → List Token → Prop
  | nothing {input : List Token} : Parameters input input []
  | listed {input rest names : List Token} : Names input rest names → Parameters input rest names

/-- The forms of statements. -/
inductive Form where
  | declaration | statement
  /-- Any number of declarations. -/
  | declarations

/-- The syntax of what has a form. -/
@[reducible] def Form.Tree : Form → Type
  | .declarations => List Statement
  | .declaration => Statement
  | .statement => Statement

/-- The rules for statements. -/
inductive Derives : (form : Form) → List Token → List Token → form.Tree → Prop
  | bare {word name semicolon : Token} {rest : List Token} :
      word.kind = .keyword .letWord →
      name.kind = .identifier →
      semicolon.kind = .semicolon →
      Derives .declaration (word :: name :: semicolon :: rest) rest (.declaration name none)
  | initialized {word name equals semicolon : Token} {input rest : List Token}
      {value : Expression} :
      word.kind = .keyword .letWord →
      name.kind = .identifier →
      equals.kind = .equal →
      Expression.Derives .full input (semicolon :: rest) value →
      semicolon.kind = .semicolon →
      Derives .declaration (word :: name :: equals :: input) rest (.declaration name (some value))
  | plain {input rest : List Token} {statement : Statement} :
      Derives .statement input rest statement →
      Derives .declaration input rest statement
  | function {word name opening closing brace ending : Token}
      {input middle rest parameters : List Token} {body : List Statement} :
      word.kind = .keyword .fnWord →
      name.kind = .identifier →
      opening.kind = .leftParen →
      Parameters input (closing :: brace :: middle) parameters →
      closing.kind = .rightParen →
      brace.kind = .leftBrace →
      Derives .declarations middle (ending :: rest) body →
      ending.kind = .rightBrace →
      Derives .statement (word :: name :: opening :: input) rest
        (.function name parameters brace body)
  | echo {word semicolon : Token} {input rest : List Token} {value : Expression} :
      word.kind = .keyword .echoWord →
      Expression.Derives .full input (semicolon :: rest) value →
      semicolon.kind = .semicolon →
      Derives .statement (word :: input) rest (.echo word value)
  | branch {word opening closing : Token} {input middle rest : List Token}
      {condition : Expression} {consequence : Statement} :
      word.kind = .keyword .ifWord →
      opening.kind = .leftParen →
      Expression.Derives .full input (closing :: middle) condition →
      closing.kind = .rightParen →
      Derives .statement middle rest consequence →
      Derives .statement (word :: opening :: input) rest (.branch word condition consequence)
  | choice {word opening closing other : Token} {input middle following rest : List Token}
      {condition : Expression} {consequence alternative : Statement} :
      word.kind = .keyword .ifWord →
      opening.kind = .leftParen →
      Expression.Derives .full input (closing :: middle) condition →
      closing.kind = .rightParen →
      Derives .statement middle (other :: following) consequence →
      other.kind = .keyword .elseWord →
      Derives .statement following rest alternative →
      Derives .statement (word :: opening :: input) rest
        (.choice word condition consequence alternative)
  | loop {word opening closing : Token} {input middle rest : List Token}
      {condition : Expression} {body : Statement} :
      word.kind = .keyword .whileWord →
      opening.kind = .leftParen →
      Expression.Derives .full input (closing :: middle) condition →
      closing.kind = .rightParen →
      Derives .statement middle rest body →
      Derives .statement (word :: opening :: input) rest (.loop word condition body)
  | giveNothing {word semicolon : Token} {rest : List Token} :
      word.kind = .keyword .returnWord →
      semicolon.kind = .semicolon →
      Derives .statement (word :: semicolon :: rest) rest (.giveBack word none)
  | giveBack {word semicolon : Token} {input rest : List Token} {value : Expression} :
      word.kind = .keyword .returnWord →
      Expression.Derives .full input (semicolon :: rest) value →
      semicolon.kind = .semicolon →
      Derives .statement (word :: input) rest (.giveBack word (some value))
  | block {brace ending : Token} {input rest : List Token} {body : List Statement} :
      brace.kind = .leftBrace →
      Derives .declarations input (ending :: rest) body →
      ending.kind = .rightBrace →
      Derives .statement (brace :: input) rest (.block brace body)
  | discard {semicolon : Token} {input rest : List Token} {value : Expression} :
      Expression.Derives .full input (semicolon :: rest) value →
      semicolon.kind = .semicolon →
      Derives .statement input rest (.discard semicolon value)
  | done {input : List Token} :
      Derives .declarations input input []
  | next {input middle rest : List Token} {first : Statement} {others : List Statement} :
      Derives .declaration input middle first →
      Derives .declarations middle rest others →
      Derives .declarations input rest (first :: others)

/-- The kinds of the tokens with which statements begin. -/
def opens : List Kind :=
  [.keyword .fnWord, .keyword .echoWord, .keyword .ifWord, .keyword .whileWord,
    .keyword .returnWord, .leftBrace] ++ Expression.Form.full.openers

/-- How many tokens a phrase of a form has at the least. -/
def Form.least : Form → Nat
  | .declarations => 0
  | _ => 1

/-- A statement is never empty, and begins with a token that opens a statement; a
declaration may also begin with `let`. -/
theorem Derives.opens
    {form : Form}
    {input rest : List Token}
    {tree : form.Tree}
    (derivation : Derives form input rest tree)
    (nonempty : form.least = 1) :
    ∃ first others, input = first :: others ∧
      (first.kind ∈ Statement.opens ∨ form = .declaration ∧ first.kind = .keyword .letWord) := by
  cases derivation with
  | bare word => exact ⟨_, _, rfl, .inr ⟨rfl, word⟩⟩
  | initialized word => exact ⟨_, _, rfl, .inr ⟨rfl, word⟩⟩
  | plain statement =>
      cases statement with
      | discard value =>
          obtain ⟨first, others, equation, member⟩ := value.opens rfl
          exact ⟨first, others, equation, .inl (List.mem_append_right _ member)⟩
      | _ => refine ⟨_, _, rfl, .inl ?_⟩ <;> simp_all [Statement.opens]
  | discard value =>
      obtain ⟨first, others, equation, member⟩ := value.opens rfl
      exact ⟨first, others, equation, .inl (List.mem_append_right _ member)⟩
  | done => cases nonempty
  | next => cases nonempty
  | _ => refine ⟨_, _, rfl, .inl ?_⟩ <;> simp_all [Statement.opens]

theorem Names.length_lt
    {input rest names : List Token}
    (derivation : Names input rest names) :
    rest.length < input.length := by
  induction derivation with
  | last => simp
  | more _ _ _ inductionHypothesis =>
      simp only [List.length_cons]
      omega

theorem Parameters.length_le
    {input rest names : List Token}
    (derivation : Parameters input rest names) :
    rest.length ≤ input.length := by
  cases derivation with
  | nothing => exact Nat.le_refl _
  | listed names => exact Nat.le_of_lt names.length_lt

/-- A phrase takes at least as many tokens as its form asks for. -/
theorem Derives.length_le
    {form : Form}
    {input rest : List Token}
    {tree : form.Tree}
    (derivation : Derives form input rest tree) :
    rest.length + form.least ≤ input.length := by
  induction derivation with
  | bare => simp [Form.least]
  | initialized _ _ _ value =>
      have := value.length_le
      simp_all only [Form.least, Expression.Form.least, List.length_cons]
      omega
  | function _ _ _ parameters =>
      have := parameters.length_le
      simp_all only [Form.least, List.length_cons]
      omega
  | echo _ value =>
      have := value.length_le
      simp_all only [Form.least, Expression.Form.least, List.length_cons]
      omega
  | branch _ _ condition =>
      have := condition.length_le
      simp_all only [Form.least, Expression.Form.least, List.length_cons]
      omega
  | choice _ _ condition =>
      have := condition.length_le
      simp_all only [Form.least, Expression.Form.least, List.length_cons]
      omega
  | loop _ _ condition =>
      have := condition.length_le
      simp_all only [Form.least, Expression.Form.least, List.length_cons]
      omega
  | giveNothing => simp [Form.least]
  | giveBack _ value =>
      have := value.length_le
      simp_all only [Form.least, Expression.Form.least, List.length_cons]
      omega
  | discard value =>
      have := value.length_le
      simp_all only [Form.least, Expression.Form.least, List.length_cons]
      omega
  | plain _ inductionHypothesis => exact inductionHypothesis
  | block =>
      simp_all only [Form.least, List.length_cons]
      omega
  | done => exact Nat.le_refl _
  | next =>
      simp_all only [Form.least]
      omega

theorem Names.exists_taken
    {input rest names : List Token}
    (derivation : Names input rest names) :
    ∃ taken, input = taken ++ rest ∧ ∀ other, Names (taken ++ other) other names := by
  induction derivation with
  | last named => exact ⟨[_], rfl, fun other => .last named⟩
  | more named comma _ others =>
      obtain ⟨taken, rfl, again⟩ := others
      exact ⟨_ :: _ :: taken, rfl, fun other => .more named comma (again other)⟩

theorem Parameters.exists_taken
    {input rest names : List Token}
    (derivation : Parameters input rest names) :
    ∃ taken, input = taken ++ rest ∧ ∀ other, Parameters (taken ++ other) other names := by
  cases derivation with
  | nothing => exact ⟨[], rfl, fun other => .nothing⟩
  | listed names =>
      obtain ⟨taken, rfl, again⟩ := names.exists_taken
      exact ⟨taken, rfl, fun other => .listed (again other)⟩

/-- A phrase consists of the tokens before the rest, whatever the rest is. -/
theorem Derives.exists_taken
    {form : Form}
    {input rest : List Token}
    {tree : form.Tree}
    (derivation : Derives form input rest tree) :
    ∃ taken, input = taken ++ rest ∧ ∀ other, Derives form (taken ++ other) other tree := by
  induction derivation with
  | bare word named ends => exact ⟨[_, _, _], rfl, fun other => .bare word named ends⟩
  | @initialized letWord name equal semicolon _ _ _ word named equals value ends =>
      obtain ⟨taken, rfl, again⟩ := value.exists_taken
      refine ⟨letWord :: name :: equal :: (taken ++ [semicolon]), by simp, fun other => ?_⟩
      rw [List.cons_append, List.cons_append, List.cons_append, List.append_assoc]
      exact .initialized word named equals (again _) ends
  | plain _ statement =>
      obtain ⟨taken, rfl, again⟩ := statement
      exact ⟨taken, rfl, fun other => .plain (again other)⟩
  | @function fnWord name opening closing brace ending _ _ _ _ _ word named opens parameters
      closes braced _ ends body =>
      obtain ⟨bodyTaken, rfl, bodyAgain⟩ := body
      obtain ⟨taken, rfl, again⟩ := parameters.exists_taken
      refine ⟨fnWord :: name :: opening :: (taken ++ closing :: brace :: (bodyTaken ++ [ending])),
        by simp, fun other => ?_⟩
      simp only [List.cons_append, List.append_assoc]
      exact .function word named opens (again _) closes braced (bodyAgain _) ends
  | @echo echoWord semicolon _ _ _ word value ends =>
      obtain ⟨taken, rfl, again⟩ := value.exists_taken
      refine ⟨echoWord :: (taken ++ [semicolon]), by simp, fun other => ?_⟩
      rw [List.cons_append, List.append_assoc]
      exact .echo word (again _) ends
  | @branch ifWord opening closing _ _ _ _ _ word opens condition closes _ consequence =>
      obtain ⟨innerTaken, rfl, innerAgain⟩ := consequence
      obtain ⟨taken, rfl, again⟩ := condition.exists_taken
      refine ⟨ifWord :: opening :: (taken ++ closing :: innerTaken), by simp, fun other => ?_⟩
      simp only [List.cons_append, List.append_assoc]
      exact .branch word opens (again _) closes (innerAgain other)
  | @choice ifWord opening closing elseWord _ _ _ _ _ _ _ word opens condition closes _ other _
      consequence alternative =>
      obtain ⟨outerTaken, rfl, outerAgain⟩ := alternative
      obtain ⟨innerTaken, rfl, innerAgain⟩ := consequence
      obtain ⟨taken, rfl, again⟩ := condition.exists_taken
      refine ⟨ifWord :: opening :: (taken ++ closing :: (innerTaken ++ elseWord :: outerTaken)),
        by simp, fun following => ?_⟩
      simp only [List.cons_append, List.append_assoc]
      exact .choice word opens (again _) closes (innerAgain _) other (outerAgain following)
  | @loop whileWord opening closing _ _ _ _ _ word opens condition closes _ body =>
      obtain ⟨innerTaken, rfl, innerAgain⟩ := body
      obtain ⟨taken, rfl, again⟩ := condition.exists_taken
      refine ⟨whileWord :: opening :: (taken ++ closing :: innerTaken), by simp, fun other => ?_⟩
      simp only [List.cons_append, List.append_assoc]
      exact .loop word opens (again _) closes (innerAgain other)
  | giveNothing word ends => exact ⟨[_, _], rfl, fun other => .giveNothing word ends⟩
  | @giveBack returnWord semicolon _ _ _ word value ends =>
      obtain ⟨taken, rfl, again⟩ := value.exists_taken
      refine ⟨returnWord :: (taken ++ [semicolon]), by simp, fun other => ?_⟩
      rw [List.cons_append, List.append_assoc]
      exact .giveBack word (again _) ends
  | @block brace ending _ _ _ opens _ ends body =>
      obtain ⟨taken, rfl, again⟩ := body
      refine ⟨brace :: (taken ++ [ending]), by simp, fun other => ?_⟩
      rw [List.cons_append, List.append_assoc]
      exact .block opens (again _) ends
  | @discard semicolon _ _ _ value ends =>
      obtain ⟨taken, rfl, again⟩ := value.exists_taken
      refine ⟨taken ++ [semicolon], by simp, fun other => ?_⟩
      rw [List.append_assoc]
      exact .discard (again _) ends
  | done => exact ⟨[], rfl, fun other => .done⟩
  | next _ _ first others =>
      obtain ⟨othersTaken, rfl, othersAgain⟩ := others
      obtain ⟨taken, rfl, again⟩ := first
      refine ⟨taken ++ othersTaken, by simp, fun other => ?_⟩
      rw [List.append_assoc]
      exact .next (again _) (othersAgain other)

/-- A phrase does not depend on what follows the rest. -/
theorem Derives.append
    {form : Form}
    {input rest : List Token}
    {tree : form.Tree}
    (derivation : Derives form input rest tree)
    (following : List Token) :
    Derives form (input ++ following) (rest ++ following) tree := by
  obtain ⟨taken, rfl, again⟩ := derivation.exists_taken
  rw [List.append_assoc]
  exact again (rest ++ following)

/-- Declarations followed by declarations are declarations. -/
theorem Derives.declarations_append
    {input middle rest : List Token}
    {first others : List Statement}
    (front : Derives .declarations input middle first)
    (back : Derives .declarations middle rest others) :
    Derives .declarations input rest (first ++ others) := by
  induction first generalizing input with
  | nil =>
      cases front with
      | done => exact back
  | cons statement first inductionHypothesis =>
      cases front with
      | next head tail => exact .next head (inductionHypothesis tail)

end Statement
end Tree
end Scripting
