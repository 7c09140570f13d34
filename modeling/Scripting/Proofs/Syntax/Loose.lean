import Mathlib.Computability.Language
import Scripting.Proofs.Syntax.Grammar

/-!
# The grammar without a look at what is assigned to

The grammar once more, as it is read while nobody asks whether what stands before an equals
sign can be assigned to: any operation may.  `Loose form input` says that the tokens of `input`
are a phrase of the form.  No syntax is made, so operators between operands of one strength, and
calls and indexings, need not be grouped, and each rule begins with what is read first.

Main statements: what is no empty phrase begins with an opener of its form (`opens`), and for
every form there is an equation between languages which says how its phrases are put together
(`Form.language_expression` and the others).
-/

namespace Scripting
namespace Tree

open Token (Kind)

namespace Loose

/-- The forms of phrases and of parts of phrases. -/
inductive Form where
  | expression
  /-- Operands and operators of the given strengths, the loosest first. -/
  | operation (strengths : List Strength)
  /-- Any number of operators of a strength, each with its right operand. -/
  | operands (strength : Strength) (tighter : List Strength)
  | unary | application | primary
  /-- Any number of calls and indexings. -/
  | suffixes
  /-- One or more expressions between commas. -/
  | items
  /-- Any number of expressions between commas. -/
  | arguments
  /-- One or more names between commas. -/
  | names
  /-- Any number of names between commas. -/
  | parameters
  | statement | declaration
  /-- Any number of declarations. -/
  | declarations

end Loose

open Loose (Form)

/-- The rules for phrases. -/
inductive Loose : Form → List Token → Prop
  | assignment {equals : Token} {target value : List Token} :
      Loose (.operation Strength.all) target →
      equals.kind = .equal →
      Loose .expression value →
      Loose .expression (target ++ equals :: value)
  | operation {input : List Token} :
      Loose (.operation Strength.all) input →
      Loose .expression input
  | joined {strength : Strength} {tighter : List Strength} {first others : List Token} :
      Loose (.operation tighter) first →
      Loose (.operands strength tighter) others →
      Loose (.operation (strength :: tighter)) (first ++ others)
  | operand {input : List Token} :
      Loose .unary input →
      Loose (.operation []) input
  | noOperands {strength : Strength} {tighter : List Strength} :
      Loose (.operands strength tighter) []
  | moreOperands {strength : Strength} {tighter : List Strength} {operator : Token}
      {right others : List Token} :
      operator.kind ∈ strength.operators →
      Loose (.operation tighter) right →
      Loose (.operands strength tighter) others →
      Loose (.operands strength tighter) (operator :: (right ++ others))
  | signed {operator : Token} {operand : List Token} :
      operator.kind ∈ [.bang, .minus] →
      Loose .unary operand →
      Loose .unary (operator :: operand)
  | unsigned {input : List Token} :
      Loose .application input →
      Loose .unary input
  | applied {target others : List Token} :
      Loose .primary target →
      Loose .suffixes others →
      Loose .application (target ++ others)
  | noSuffixes :
      Loose .suffixes []
  | call {opening closing : Token} {arguments others : List Token} :
      opening.kind = .leftParen →
      Loose .arguments arguments →
      closing.kind = .rightParen →
      Loose .suffixes others →
      Loose .suffixes (opening :: (arguments ++ closing :: others))
  | index {opening closing : Token} {position others : List Token} :
      opening.kind = .leftBracket →
      Loose .expression position →
      closing.kind = .rightBracket →
      Loose .suffixes others →
      Loose .suffixes (opening :: (position ++ closing :: others))
  | constant {token : Token} {value : Constant} :
      value.SpelledBy token →
      Loose .primary [token]
  | mention {name : Token} :
      name.kind = .identifier →
      Loose .primary [name]
  | group {opening closing : Token} {inner : List Token} :
      opening.kind = .leftParen →
      Loose .expression inner →
      closing.kind = .rightParen →
      Loose .primary (opening :: (inner ++ [closing]))
  | array {opening closing : Token} {elements : List Token} :
      opening.kind = .leftBracket →
      Loose .arguments elements →
      closing.kind = .rightBracket →
      Loose .primary (opening :: (elements ++ [closing]))
  | lastItem {item : List Token} :
      Loose .expression item →
      Loose .items item
  | moreItems {comma : Token} {item others : List Token} :
      Loose .expression item →
      comma.kind = .comma →
      Loose .items others →
      Loose .items (item ++ comma :: others)
  | noArguments :
      Loose .arguments []
  | arguments {input : List Token} :
      Loose .items input →
      Loose .arguments input
  | lastName {name : Token} :
      name.kind = .identifier →
      Loose .names [name]
  | moreNames {name comma : Token} {others : List Token} :
      name.kind = .identifier →
      comma.kind = .comma →
      Loose .names others →
      Loose .names (name :: comma :: others)
  | noParameters :
      Loose .parameters []
  | parameters {input : List Token} :
      Loose .names input →
      Loose .parameters input
  | function {word name opening closing brace ending : Token} {parameters body : List Token} :
      word.kind = .keyword .fnWord →
      name.kind = .identifier →
      opening.kind = .leftParen →
      Loose .parameters parameters →
      closing.kind = .rightParen →
      brace.kind = .leftBrace →
      Loose .declarations body →
      ending.kind = .rightBrace →
      Loose .statement
        (word :: name :: opening :: (parameters ++ closing :: brace :: (body ++ [ending])))
  | echo {word semicolon : Token} {value : List Token} :
      word.kind = .keyword .echoWord →
      Loose .expression value →
      semicolon.kind = .semicolon →
      Loose .statement (word :: (value ++ [semicolon]))
  | branch {word opening closing : Token} {condition consequence : List Token} :
      word.kind = .keyword .ifWord →
      opening.kind = .leftParen →
      Loose .expression condition →
      closing.kind = .rightParen →
      Loose .statement consequence →
      Loose .statement (word :: opening :: (condition ++ closing :: consequence))
  | choice {word opening closing other : Token}
      {condition consequence alternative : List Token} :
      word.kind = .keyword .ifWord →
      opening.kind = .leftParen →
      Loose .expression condition →
      closing.kind = .rightParen →
      Loose .statement consequence →
      other.kind = .keyword .elseWord →
      Loose .statement alternative →
      Loose .statement
        (word :: opening :: (condition ++ closing :: (consequence ++ other :: alternative)))
  | loop {word opening closing : Token} {condition body : List Token} :
      word.kind = .keyword .whileWord →
      opening.kind = .leftParen →
      Loose .expression condition →
      closing.kind = .rightParen →
      Loose .statement body →
      Loose .statement (word :: opening :: (condition ++ closing :: body))
  | giveNothing {word semicolon : Token} :
      word.kind = .keyword .returnWord →
      semicolon.kind = .semicolon →
      Loose .statement [word, semicolon]
  | giveBack {word semicolon : Token} {value : List Token} :
      word.kind = .keyword .returnWord →
      Loose .expression value →
      semicolon.kind = .semicolon →
      Loose .statement (word :: (value ++ [semicolon]))
  | block {brace ending : Token} {body : List Token} :
      brace.kind = .leftBrace →
      Loose .declarations body →
      ending.kind = .rightBrace →
      Loose .statement (brace :: (body ++ [ending]))
  | discard {semicolon : Token} {value : List Token} :
      Loose .expression value →
      semicolon.kind = .semicolon →
      Loose .statement (value ++ [semicolon])
  | bare {word name semicolon : Token} :
      word.kind = .keyword .letWord →
      name.kind = .identifier →
      semicolon.kind = .semicolon →
      Loose .declaration [word, name, semicolon]
  | initialized {word name equals semicolon : Token} {value : List Token} :
      word.kind = .keyword .letWord →
      name.kind = .identifier →
      equals.kind = .equal →
      Loose .expression value →
      semicolon.kind = .semicolon →
      Loose .declaration (word :: name :: equals :: (value ++ [semicolon]))
  | plain {input : List Token} :
      Loose .statement input →
      Loose .declaration input
  | done :
      Loose .declarations []
  | next {first others : List Token} :
      Loose .declaration first →
      Loose .declarations others →
      Loose .declarations (first ++ others)

namespace Loose

/-! ## What phrases begin with -/

/-- The kinds of the tokens with which phrases of a form begin. What may be empty is left
out. -/
def Form.openers : Form → List Kind
  | .application | .primary => Expression.simpleOpeners
  | .names => [.identifier]
  | .statement => Statement.opens
  | .declaration => .keyword .letWord :: Statement.opens
  | _ => Expression.Form.full.openers

/-- Whether phrases of a form may be empty. -/
def Form.mayBeEmpty : Form → Bool
  | .operands _ _ | .suffixes | .arguments | .parameters | .declarations => true
  | _ => false

/-- A phrase that may not be empty begins with a token that opens its form. -/
theorem opens
    {form : Form}
    {input : List Token}
    (phrase : Loose form input)
    (nonempty : form.mayBeEmpty = false) :
    ∃ first others, input = first :: others ∧ first.kind ∈ form.openers := by
  have simple : Expression.simpleOpeners ⊆ Expression.Form.full.openers :=
    Expression.Form.simpleOpeners_subset _
  induction phrase with
  | assignment _ _ _ inductionHypothesis =>
      obtain ⟨first, others, rfl, member⟩ := inductionHypothesis rfl
      exact ⟨first, _, rfl, member⟩
  | operation _ inductionHypothesis => exact inductionHypothesis rfl
  | joined _ _ inductionHypothesis =>
      obtain ⟨first, others, rfl, member⟩ := inductionHypothesis rfl
      exact ⟨first, _, rfl, member⟩
  | operand _ inductionHypothesis => exact inductionHypothesis rfl
  | signed sign => exact ⟨_, _, rfl, List.mem_append_left Expression.simpleOpeners sign⟩
  | unsigned _ inductionHypothesis =>
      obtain ⟨first, others, rfl, member⟩ := inductionHypothesis rfl
      exact ⟨first, others, rfl, simple member⟩
  | applied _ _ inductionHypothesis =>
      obtain ⟨first, others, rfl, member⟩ := inductionHypothesis rfl
      exact ⟨first, _, rfl, member⟩
  | constant spelled =>
      refine ⟨_, _, rfl, ?_⟩
      cases spelled with
      | null kind => simp [kind, Form.openers, Expression.simpleOpeners]
      | truth kind => simp [kind, Form.openers, Expression.simpleOpeners]
      | falsehood kind => simp [kind, Form.openers, Expression.simpleOpeners]
      | literal kind =>
          rcases kind with kind | kind <;> simp [kind, Form.openers, Expression.simpleOpeners]
  | lastItem _ inductionHypothesis => exact inductionHypothesis rfl
  | moreItems _ _ _ inductionHypothesis =>
      obtain ⟨first, others, rfl, member⟩ := inductionHypothesis rfl
      exact ⟨first, _, rfl, member⟩
  | discard _ _ inductionHypothesis =>
      obtain ⟨first, others, rfl, member⟩ := inductionHypothesis rfl
      exact ⟨first, _, rfl, List.mem_append_right _ member⟩
  | plain _ inductionHypothesis =>
      obtain ⟨first, others, rfl, member⟩ := inductionHypothesis rfl
      exact ⟨first, others, rfl, List.mem_cons_of_mem _ member⟩
  | noOperands | moreOperands | noSuffixes | call | index | noArguments | arguments
  | noParameters | parameters | done | next => cases nonempty
  | _ => refine ⟨_, _, rfl, ?_⟩; simp_all [Form.openers, Expression.simpleOpeners, Statement.opens]

/-! ## Languages of tokens -/

section Languages

variable {wanted : List Kind} {kind : Kind} {following : Language Token} {token : Token}
  {input others : List Token}

/-- The single tokens of the wanted kinds. -/
def oneOf (wanted : List Kind) : Language Token :=
  {input | ∃ token, token.kind ∈ wanted ∧ input = [token]}

/-- What begins with a token of one of the kinds and goes on as its kind says. -/
def byFirst (alternatives : List (Kind × Language Token)) : Language Token :=
  {input | ∃ alternative ∈ alternatives, input ∈ oneOf [alternative.1] * alternative.2}

theorem singleton_mem_oneOf (member : token.kind ∈ wanted) : [token] ∈ oneOf wanted :=
  ⟨token, member, rfl⟩

theorem singleton_mem_of_kind (same : token.kind = kind) : [token] ∈ oneOf [kind] :=
  singleton_mem_oneOf (List.mem_singleton.mpr same)

@[simp] theorem cons_mem_oneOf_mul :
    token :: others ∈ oneOf wanted * following ↔ token.kind ∈ wanted ∧ others ∈ following := by
  rw [Language.mem_mul]
  constructor
  · rintro ⟨_, ⟨first, member, rfl⟩, rest, restMember, same⟩
    obtain ⟨rfl, rfl⟩ := List.cons.inj same
    exact ⟨member, restMember⟩
  · rintro ⟨member, restMember⟩
    exact ⟨[token], singleton_mem_oneOf member, others, restMember, rfl⟩

@[simp] theorem nil_not_mem_oneOf_mul : [] ∉ oneOf wanted * following := by
  rw [Language.mem_mul]
  rintro ⟨_, ⟨first, -, rfl⟩, rest, -, same⟩
  cases same

theorem mem_oneOf_mul :
    input ∈ oneOf wanted * following ↔
      ∃ token others, input = token :: others ∧ token.kind ∈ wanted ∧ others ∈ following := by
  cases input with
  | nil => simp
  | cons token others => simp

theorem cons_mem_of_kind
    (same : token.kind = kind)
    (continues : others ∈ following) :
    token :: others ∈ oneOf [kind] * following :=
  cons_mem_oneOf_mul.mpr ⟨List.mem_singleton.mpr same, continues⟩

theorem cons_mem_byFirst
    {alternatives : List (Kind × Language Token)}
    (kind : Kind)
    (following : Language Token)
    (member : (kind, following) ∈ alternatives)
    (same : token.kind = kind)
    (continues : others ∈ following) :
    token :: others ∈ byFirst alternatives :=
  ⟨_, member, cons_mem_of_kind same continues⟩

theorem mem_oneOf_singleton_mul :
    input ∈ oneOf [kind] * following ↔
      ∃ token others, input = token :: others ∧ token.kind = kind ∧ others ∈ following := by
  simp only [mem_oneOf_mul, List.mem_singleton]

theorem mem_oneOf_singleton :
    input ∈ oneOf [kind] ↔ ∃ token, input = [token] ∧ token.kind = kind := by
  constructor
  · rintro ⟨token, member, same⟩
    exact ⟨token, same, List.mem_singleton.mp member⟩
  · rintro ⟨token, same, kind⟩
    exact ⟨token, List.mem_singleton.mpr kind, same⟩

/-- The phrases of a form. -/
def Form.language (form : Form) : Language Token :=
  {input | Loose form input}

@[simp] theorem Form.mem_language {form : Form} : input ∈ form.language ↔ Loose form input :=
  Iff.rfl

end Languages

/-! ## How phrases are put together -/

namespace Form

theorem language_expression :
    expression.language =
      (operation Strength.all).language * (oneOf [.equal] * expression.language + 1) := by
  ext input
  constructor
  · intro phrase
    cases phrase with
    | assignment target equals value =>
        exact Language.append_mem_mul target (.inl (cons_mem_of_kind equals value))
    | operation target => exact ⟨_, target, [], .inr rfl, List.append_nil _⟩
  · rintro ⟨target, isTarget, _, more | rfl, rfl⟩
    · obtain ⟨equals, value, rfl, kind, isValue⟩ := mem_oneOf_singleton_mul.mp more
      exact .assignment isTarget kind isValue
    · simpa using Loose.operation isTarget

theorem language_operation_nil : (operation []).language = unary.language := by
  ext input
  constructor
  · intro phrase
    cases phrase with
    | operand operand => exact operand
  · exact .operand

theorem language_operation_cons (strength : Strength) (tighter : List Strength) :
    (operation (strength :: tighter)).language =
      (operation tighter).language * (operands strength tighter).language := by
  ext input
  constructor
  · intro phrase
    cases phrase with
    | joined first others => exact Language.append_mem_mul first others
  · rintro ⟨first, isFirst, others, areOthers, rfl⟩
    exact .joined isFirst areOthers

theorem language_operands (strength : Strength) (tighter : List Strength) :
    (operands strength tighter).language =
      oneOf strength.operators *
        ((operation tighter).language * (operands strength tighter).language) + 1 := by
  ext input
  constructor
  · intro phrase
    cases phrase with
    | noOperands => exact .inr rfl
    | moreOperands operator right others =>
        exact .inl (cons_mem_oneOf_mul.mpr ⟨operator, Language.append_mem_mul right others⟩)
  · rintro (more | rfl)
    · obtain ⟨operator, _, rfl, kind, right, isRight, others, areOthers, rfl⟩ :=
        mem_oneOf_mul.mp more
      exact .moreOperands kind isRight areOthers
    · exact .noOperands

theorem language_unary :
    unary.language = oneOf [.bang, .minus] * unary.language + application.language := by
  ext input
  constructor
  · intro phrase
    cases phrase with
    | signed sign operand => exact .inl (cons_mem_oneOf_mul.mpr ⟨sign, operand⟩)
    | unsigned application => exact .inr application
  · rintro (signed | application)
    · obtain ⟨operator, operand, rfl, sign, isOperand⟩ := mem_oneOf_mul.mp signed
      exact .signed sign isOperand
    · exact .unsigned application

theorem language_application :
    application.language = primary.language * suffixes.language := by
  ext input
  constructor
  · intro phrase
    cases phrase with
    | applied target others => exact Language.append_mem_mul target others
  · rintro ⟨target, isTarget, others, areOthers, rfl⟩
    exact .applied isTarget areOthers

theorem language_suffixes :
    suffixes.language =
      oneOf [.leftParen] * (arguments.language * (oneOf [.rightParen] * suffixes.language)) +
        (oneOf [.leftBracket] *
          (expression.language * (oneOf [.rightBracket] * suffixes.language)) + 1) := by
  ext input
  constructor
  · intro phrase
    cases phrase with
    | noSuffixes => exact .inr (.inr rfl)
    | call opening arguments closing others =>
        exact .inl (cons_mem_of_kind opening (Language.append_mem_mul arguments
          (cons_mem_of_kind closing others)))
    | index opening position closing others =>
        exact .inr (.inl (cons_mem_of_kind opening (Language.append_mem_mul position
          (cons_mem_of_kind closing others))))
  · rintro (call | index | rfl)
    · obtain ⟨opening, _, rfl, opens, arguments, areArguments, _, rest, rfl⟩ :=
        mem_oneOf_singleton_mul.mp call
      obtain ⟨closing, others, rfl, closes, areOthers⟩ := mem_oneOf_singleton_mul.mp rest
      exact .call opens areArguments closes areOthers
    · obtain ⟨opening, _, rfl, opens, position, isPosition, _, rest, rfl⟩ :=
        mem_oneOf_singleton_mul.mp index
      obtain ⟨closing, others, rfl, closes, areOthers⟩ := mem_oneOf_singleton_mul.mp rest
      exact .index opens isPosition closes areOthers
    · exact .noSuffixes

/-- The single tokens that are constants. -/
def constants : Language Token :=
  {input | ∃ token value, Constant.SpelledBy value token ∧ input = [token]}

/-- The ways in which a primary expression that is no constant goes on after its first
token. -/
def simple : List (Kind × Language Token) :=
  [(.identifier, 1), (.leftParen, expression.language * oneOf [.rightParen]),
    (.leftBracket, arguments.language * oneOf [.rightBracket])]

theorem language_primary : primary.language = byFirst simple + constants := by
  ext input
  constructor
  · intro phrase
    cases phrase with
    | constant spelled => exact .inr ⟨_, _, spelled, rfl⟩
    | mention named => exact .inl (cons_mem_byFirst .identifier 1 (by simp [simple]) named rfl)
    | group opening inner closing =>
        exact .inl (cons_mem_byFirst .leftParen (expression.language * oneOf [.rightParen])
          (by simp [simple]) opening
          (Language.append_mem_mul inner (singleton_mem_of_kind closing)))
    | array opening elements closing =>
        exact .inl (cons_mem_byFirst .leftBracket (arguments.language * oneOf [.rightBracket])
          (by simp [simple]) opening
          (Language.append_mem_mul elements (singleton_mem_of_kind closing)))
  · rintro (⟨alternative, member, begins⟩ | ⟨token, value, spelled, rfl⟩)
    · simp only [simple, List.mem_cons, List.not_mem_nil, or_false] at member
      rcases member with rfl | rfl | rfl
      all_goals obtain ⟨opening, _, rfl, opens, rest⟩ := mem_oneOf_singleton_mul.mp begins
      · obtain rfl := (Language.mem_one _).mp rest
        exact .mention opens
      · obtain ⟨inner, isInner, _, ends, rfl⟩ := rest
        obtain ⟨closing, rfl, closes⟩ := mem_oneOf_singleton.mp ends
        exact .group opens isInner closes
      · obtain ⟨elements, areElements, _, ends, rfl⟩ := rest
        obtain ⟨closing, rfl, closes⟩ := mem_oneOf_singleton.mp ends
        exact .array opens areElements closes
    · exact .constant spelled

theorem language_items :
    items.language = expression.language * (oneOf [.comma] * items.language + 1) := by
  ext input
  constructor
  · intro phrase
    cases phrase with
    | lastItem item => exact ⟨_, item, [], .inr rfl, List.append_nil _⟩
    | moreItems item comma others =>
        exact Language.append_mem_mul item (.inl (cons_mem_of_kind comma others))
  · rintro ⟨item, isItem, _, more | rfl, rfl⟩
    · obtain ⟨comma, others, rfl, kind, areOthers⟩ := mem_oneOf_singleton_mul.mp more
      exact .moreItems isItem kind areOthers
    · simpa using Loose.lastItem isItem

theorem language_arguments : arguments.language = 1 + items.language := by
  ext input
  constructor
  · intro phrase
    cases phrase with
    | noArguments => exact .inl rfl
    | arguments items => exact .inr items
  · rintro (rfl | items)
    · exact .noArguments
    · exact .arguments items

theorem language_names :
    names.language = oneOf [.identifier] * (oneOf [.comma] * names.language + 1) := by
  ext input
  constructor
  · intro phrase
    cases phrase with
    | lastName named => exact cons_mem_of_kind named (.inr rfl)
    | moreNames named comma others =>
        exact cons_mem_of_kind named (.inl (cons_mem_of_kind comma others))
  · intro begins
    obtain ⟨name, _, rfl, named, more | rfl⟩ := mem_oneOf_singleton_mul.mp begins
    · obtain ⟨comma, others, rfl, kind, areOthers⟩ := mem_oneOf_singleton_mul.mp more
      exact .moreNames named kind areOthers
    · exact .lastName named

theorem language_parameters : parameters.language = 1 + names.language := by
  ext input
  constructor
  · intro phrase
    cases phrase with
    | noParameters => exact .inl rfl
    | parameters names => exact .inr names
  · rintro (rfl | names)
    · exact .noParameters
    · exact .parameters names

/-- What may follow the name of a variable in its declaration. -/
def initializer : Language Token :=
  oneOf [.equal] * (expression.language * oneOf [.semicolon]) + oneOf [.semicolon]

theorem language_declaration :
    declaration.language =
      oneOf [.keyword .letWord] * (oneOf [.identifier] * initializer) + statement.language := by
  ext input
  constructor
  · intro phrase
    cases phrase with
    | bare word named ends =>
        exact .inl (cons_mem_of_kind word (cons_mem_of_kind named
          (.inr (singleton_mem_of_kind ends))))
    | initialized word named equals value ends =>
        exact .inl (cons_mem_of_kind word (cons_mem_of_kind named (.inl (cons_mem_of_kind equals
          (Language.append_mem_mul value (singleton_mem_of_kind ends))))))
    | plain statement => exact .inr statement
  · rintro (declares | statement)
    · obtain ⟨word, _, rfl, isWord, rest⟩ := mem_oneOf_singleton_mul.mp declares
      obtain ⟨name, _, rfl, named, more | last⟩ := mem_oneOf_singleton_mul.mp rest
      · obtain ⟨equals, _, rfl, kind, value, isValue, _, last, rfl⟩ :=
          mem_oneOf_singleton_mul.mp more
        obtain ⟨semicolon, rfl, ends⟩ := mem_oneOf_singleton.mp last
        exact .initialized isWord named kind isValue ends
      · obtain ⟨semicolon, rfl, ends⟩ := mem_oneOf_singleton.mp last
        exact .bare isWord named ends
    · exact .plain statement

theorem language_declarations :
    declarations.language = declaration.language * declarations.language + 1 := by
  ext input
  constructor
  · intro phrase
    cases phrase with
    | done => exact .inr rfl
    | next first others => exact .inl (Language.append_mem_mul first others)
  · rintro (⟨first, isFirst, others, areOthers, rfl⟩ | rfl)
    · exact .next isFirst areOthers
    · exact .done

/-! ### Statements -/

/-- The declarations of a block and its closing brace. -/
def blockRest : Language Token :=
  declarations.language * oneOf [.rightBrace]

/-- What may follow the keyword of a function. -/
def functionRest : Language Token :=
  oneOf [.identifier] * (oneOf [.leftParen] * (parameters.language * (oneOf [.rightParen] *
    (oneOf [.leftBrace] * blockRest))))

/-- What may follow the consequence of a branch. -/
def alternative : Language Token :=
  oneOf [.keyword .elseWord] * statement.language + 1

/-- What may follow the keyword of a branch. -/
def branchRest : Language Token :=
  oneOf [.leftParen] * (expression.language * (oneOf [.rightParen] *
    (statement.language * alternative)))

/-- What may follow the keyword of a loop. -/
def loopRest : Language Token :=
  oneOf [.leftParen] * (expression.language * (oneOf [.rightParen] * statement.language))

/-- What may follow the keyword with which a function gives back a value. -/
def giveBackRest : Language Token :=
  oneOf [.semicolon] + expression.language * oneOf [.semicolon]

/-- The ways in which a statement that does not begin with an expression goes on after its
first token. -/
def marked : List (Kind × Language Token) :=
  [(.keyword .fnWord, functionRest),
    (.keyword .echoWord, expression.language * oneOf [.semicolon]),
    (.keyword .ifWord, branchRest), (.keyword .whileWord, loopRest),
    (.keyword .returnWord, giveBackRest), (.leftBrace, blockRest)]

/-- A phrase is a statement that does not begin with an expression. -/
theorem mem_byFirst_marked
    {input : List Token}
    (phrase : Loose .statement input) :
    input ∈ byFirst marked + expression.language * oneOf [.semicolon] := by
  cases phrase with
  | function word named opens parameters closes brace body ends =>
      exact .inl (cons_mem_byFirst (.keyword .fnWord) functionRest (by simp [marked]) word
        (cons_mem_of_kind named (cons_mem_of_kind opens (Language.append_mem_mul parameters
          (cons_mem_of_kind closes (cons_mem_of_kind brace
            (Language.append_mem_mul body (singleton_mem_of_kind ends))))))))
  | echo word value ends =>
      exact .inl (cons_mem_byFirst (.keyword .echoWord)
        (expression.language * oneOf [.semicolon]) (by simp [marked]) word
        (Language.append_mem_mul value (singleton_mem_of_kind ends)))
  | branch word opens condition closes consequence =>
      exact .inl (cons_mem_byFirst (.keyword .ifWord) branchRest (by simp [marked]) word
        (cons_mem_of_kind opens (Language.append_mem_mul condition
          (cons_mem_of_kind closes ⟨_, consequence, [], .inr rfl, List.append_nil _⟩))))
  | choice word opens condition closes consequence other alternative =>
      exact .inl (cons_mem_byFirst (.keyword .ifWord) branchRest (by simp [marked]) word
        (cons_mem_of_kind opens (Language.append_mem_mul condition
          (cons_mem_of_kind closes (Language.append_mem_mul consequence
            (.inl (cons_mem_of_kind other alternative)))))))
  | loop word opens condition closes body =>
      exact .inl (cons_mem_byFirst (.keyword .whileWord) loopRest (by simp [marked]) word
        (cons_mem_of_kind opens (Language.append_mem_mul condition
          (cons_mem_of_kind closes body))))
  | giveNothing word ends =>
      exact .inl (cons_mem_byFirst (.keyword .returnWord) giveBackRest (by simp [marked]) word
        (.inl (singleton_mem_of_kind ends)))
  | giveBack word value ends =>
      exact .inl (cons_mem_byFirst (.keyword .returnWord) giveBackRest (by simp [marked]) word
        (.inr (Language.append_mem_mul value (singleton_mem_of_kind ends))))
  | block brace body ends =>
      exact .inl (cons_mem_byFirst .leftBrace blockRest (by simp [marked]) brace
        (Language.append_mem_mul body (singleton_mem_of_kind ends)))
  | discard value ends =>
      exact .inr (Language.append_mem_mul value (singleton_mem_of_kind ends))

theorem language_statement :
    statement.language = byFirst marked + expression.language * oneOf [.semicolon] := by
  ext input
  refine ⟨mem_byFirst_marked, ?_⟩
  rintro (⟨_, member, begins⟩ | ⟨value, isValue, _, last, rfl⟩)
  · simp only [marked, List.mem_cons, List.not_mem_nil, or_false] at member
    rcases member with rfl | rfl | rfl | rfl | rfl | rfl
    all_goals obtain ⟨word, _, rfl, isWord, rest⟩ := mem_oneOf_singleton_mul.mp begins
    · obtain ⟨name, _, rfl, named, afterName⟩ := mem_oneOf_singleton_mul.mp rest
      obtain ⟨opening, _, rfl, opens, parameters, areParameters, _, afterParameters, rfl⟩ :=
        mem_oneOf_singleton_mul.mp afterName
      obtain ⟨closing, _, rfl, closes, afterClosing⟩ := mem_oneOf_singleton_mul.mp afterParameters
      obtain ⟨brace, _, rfl, isBrace, body, isBody, _, last, rfl⟩ :=
        mem_oneOf_singleton_mul.mp afterClosing
      obtain ⟨ending, rfl, ends⟩ := mem_oneOf_singleton.mp last
      exact .function isWord named opens areParameters closes isBrace isBody ends
    · obtain ⟨value, isValue, _, last, rfl⟩ := rest
      obtain ⟨semicolon, rfl, ends⟩ := mem_oneOf_singleton.mp last
      exact .echo isWord isValue ends
    · obtain ⟨opening, _, rfl, opens, condition, isCondition, _, afterCondition, rfl⟩ :=
        mem_oneOf_singleton_mul.mp rest
      obtain ⟨closing, _, rfl, closes, consequence, isConsequence, _, more | rfl, rfl⟩ :=
        mem_oneOf_singleton_mul.mp afterCondition
      · obtain ⟨other, alternative, rfl, kind, isAlternative⟩ := mem_oneOf_singleton_mul.mp more
        exact .choice isWord opens isCondition closes isConsequence kind isAlternative
      · simpa using Loose.branch isWord opens isCondition closes isConsequence
    · obtain ⟨opening, _, rfl, opens, condition, isCondition, _, afterCondition, rfl⟩ :=
        mem_oneOf_singleton_mul.mp rest
      obtain ⟨closing, body, rfl, closes, isBody⟩ := mem_oneOf_singleton_mul.mp afterCondition
      exact .loop isWord opens isCondition closes isBody
    · obtain last | ⟨value, isValue, _, last, rfl⟩ := rest
      · obtain ⟨semicolon, rfl, ends⟩ := mem_oneOf_singleton.mp last
        exact .giveNothing isWord ends
      · obtain ⟨semicolon, rfl, ends⟩ := mem_oneOf_singleton.mp last
        exact .giveBack isWord isValue ends
    · obtain ⟨body, isBody, _, last, rfl⟩ := rest
      obtain ⟨ending, rfl, ends⟩ := mem_oneOf_singleton.mp last
      exact .block isWord isBody ends
  · obtain ⟨semicolon, rfl, ends⟩ := mem_oneOf_singleton.mp last
    exact .discard isValue ends

end Form

end Loose
end Tree
end Scripting
