import Scripting.Proofs.Reading.Expressions
import Scripting.Proofs.Syntax.Else

/-!
# Reading statements

Every statement of the grammar whose `else`s belong to the nearest `if`s is read as
what it is (`readsStatements_readWithin`), and so are declarations one after the
other (`declarationsBefore_of_derives`).
-/

namespace Scripting
namespace Tree

open Token (Kind)
open Statement (Form Derives Names Parameters parameterRose)

/-- The next token, if there is one, is no `else`. -/
def NoElse (rest : List Token) : Prop :=
  ∀ token ∈ rest.head?, token.kind ≠ .keyword .elseWord

theorem noElse_cons
    {token : Token}
    (rest : List Token)
    (different : token.kind ≠ .keyword .elseWord) :
    NoElse (token :: rest) := by
  simpa [NoElse] using different

namespace Statement

/-- The statement stands at an index. -/
def At (statement : Statement) (arena : Arena) (id : NodeId) : Prop :=
  statement.rose.StandsAt arena (some id)

/-- The statements stand at indices. -/
def AllAt (statements : List Statement) (arena : Arena) (ids : List (Option NodeId)) : Prop :=
  Rose.AllStandAt arena (roses statements) ids

@[simp] theorem allAt_nil (arena : Arena) (ids : List (Option NodeId)) :
    AllAt [] arena ids ↔ ids = [] := by
  simp [AllAt]

@[simp] theorem allAt_cons
    (statement : Statement)
    (others : List Statement)
    (arena : Arena)
    (id : NodeId)
    (ids : List (Option NodeId)) :
    AllAt (statement :: others) arena (some id :: ids) ↔
      statement.At arena id ∧ AllAt others arena ids := by
  simp [AllAt, At]

theorem At.mono
    {statement : Statement}
    {arena later : Arena}
    {id : NodeId}
    (stands : statement.At arena id)
    (before : arena ≤ later) :
    statement.At later id :=
  Rose.StandsAt.mono before stands

theorem AllAt.mono
    {statements : List Statement}
    {arena later : Arena}
    {ids : List (Option NodeId)}
    (stand : AllAt statements arena ids)
    (before : arena ≤ later) :
    AllAt statements later ids :=
  Rose.AllStandAt.mono before stand

end Statement

variable {read : Phrase → Parse NodeId} {rounds count : Nat}

/-- The reader of statements reads what has at most `count` tokens. -/
def ReadsStatements (read : Phrase → Parse NodeId) (count : Nat) : Prop :=
  ∀ {input rest : List Token} {tree : Statement},
    Derives .statement input rest tree → tree.ElseNearest → input.length ≤ count →
      (tree.endsOpen = true → NoElse rest) → Reads (read .statement) input rest tree.At

/-! ## Declarations -/

theorem reads_bareDeclaration
    {name semicolon : Token}
    (named : name.kind = .identifier)
    (ends : semicolon.kind = .semicolon)
    (rest : List Token) :
    Reads (variableDeclaration read) (name :: semicolon :: rest) rest
      (Statement.declaration name none).At := by
  intro ending arena faults
  refine exists_of_addNode ?_ (Arena.le_refl _)
    ((Rose.allStandAt_singleton _ _).mpr ⟨none, rfl, (Rose.standsAt_absent _).mpr rfl⟩)
  have noEqual : ∀ token ∈ (semicolon :: rest).head?, token.kind ≠ Kind.equal := by
    simp [ends]
  rw [variableDeclaration, bind_of_ok (expect_of_eq _ _ _ _ _ named),
    bind_of_ok (accept_of_ne _ _ _ noEqual)]
  simp only [pure_bind]
  rw [bind_of_ok (expect_of_eq _ _ _ _ _ ends)]
  rfl

theorem reads_initializedDeclaration
    {name equals semicolon : Token}
    {input rest : List Token}
    {value : Expression}
    (named : name.kind = .identifier)
    (equal : equals.kind = .equal)
    (inside : Reads (read .expression) input (semicolon :: rest) value.At)
    (ends : semicolon.kind = .semicolon) :
    Reads (variableDeclaration read) (name :: equals :: input) rest
      (Statement.declaration name (some value)).At := by
  intro ending arena faults
  obtain ⟨id, later, before, stands, valueEnds⟩ := inside ending arena faults
  refine exists_of_addNode ?_ before ((Rose.allStandAt_singleton _ _).mpr ⟨some id, rfl, stands⟩)
  rw [variableDeclaration, bind_of_ok (expect_of_eq _ _ _ _ _ named),
    bind_of_ok (accept_of_eq _ _ _ _ equal)]
  simp only [map_eq_bind, bind_assoc]
  rw [bind_of_ok valueEnds]
  simp only [pure_bind]
  rw [bind_of_ok (expect_of_eq _ _ _ _ _ ends)]
  rfl

/-- A reading that succeeds loses nothing. -/
theorem recovering_of_ok
    {work : Parse NodeId}
    {cursor later : Cursor}
    {id : NodeId}
    (ends : work cursor = .ok id later) :
    recovering work cursor = (some id, later) := by
  simp [recovering, ends]

/-- A reading that fails is lost, and reading goes on behind it. -/
theorem recovering_of_error
    {work : Parse NodeId}
    {cursor later : Cursor}
    {fault : Fault}
    (ends : work cursor = .error fault later) :
    recovering work cursor =
      (none, { later with faults := later.faults.push fault, rest := resume later.rest }) := by
  simp [recovering, ends]

theorem declaration_of_derives
    (expressions : ReadsExpressions read count)
    (statements : ReadsStatements read count)
    {input rest : List Token}
    {tree : Statement}
    (derivation : Derives .declaration input rest tree)
    (nearest : tree.ElseNearest)
    (bound : input.length ≤ count)
    (noElse : NoElse rest)
    (ending : Token)
    (arena : Arena)
    (faults : Array Fault) :
    ∃ id later, arena ≤ later ∧ tree.At later id ∧
      declaration read ⟨input, ending, arena, faults⟩ =
        (some id, ⟨rest, ending, later, faults⟩) := by
  cases derivation with
  | bare word named ends =>
      obtain ⟨id, later, before, stands, equation⟩ :=
        reads_bareDeclaration named ends rest ending arena faults
      refine ⟨id, later, before, stands, recovering_of_ok ?_⟩
      rw [bind_of_ok (accept_of_eq _ _ _ _ word)]
      exact equation
  | initialized word named equals value ends =>
      simp only [List.length_cons] at bound
      have inside := expressions.expression value (by omega)
        (Expression.Form.stops_of_mem (by simp [ends]))
      obtain ⟨id, later, before, stands, equation⟩ :=
        reads_initializedDeclaration named equals inside ends ending arena faults
      refine ⟨id, later, before, stands, recovering_of_ok ?_⟩
      rw [bind_of_ok (accept_of_eq _ _ _ _ word)]
      exact equation
  | plain derivation =>
      obtain ⟨id, later, before, stands, equation⟩ :=
        statements derivation nearest bound (fun _ => noElse) ending arena faults
      refine ⟨id, later, before, stands, recovering_of_ok ?_⟩
      obtain ⟨first, others, rfl, member | ⟨form, -⟩⟩ := derivation.opens rfl
      · have noLet : ∀ token ∈ (first :: others).head?,
            token.kind ≠ Kind.keyword .letWord := by
          simp only [List.head?_cons, Option.mem_some_iff, forall_eq']
          intro same
          rw [same] at member
          revert member
          decide
        rw [bind_of_ok (accept_of_ne _ _ _ noLet)]
        exact equation
      · cases form

/-- No declaration begins with an `else`. -/
theorem noElse_of_declarations
    {input rest : List Token}
    {trees : List Statement}
    (derivation : Derives .declarations input rest trees)
    (noElse : NoElse rest) :
    NoElse input := by
  cases derivation with
  | done => exact noElse
  | next first _ =>
      obtain ⟨token, others, rfl, member | ⟨-, word⟩⟩ := first.opens rfl
      · apply noElse_cons others
        intro same
        rw [same] at member
        revert member
        decide
      · exact noElse_cons others (by simp [word])

/-- Declarations are read one after the other, and what follows them is read next. -/
theorem declarationsBefore_goesOn_of_derives
    (expressions : ReadsExpressions read count)
    (statements : ReadsStatements read count)
    {closing : Option Kind}
    (closes : closing ∈ [none, some Kind.rightBrace])
    {rest : List Token}
    (noElse : NoElse rest) :
    ∀ {trees : List Statement} {input : List Token} (remaining : Nat)
      (found : Array (Option NodeId)) (ending : Token) (arena : Arena) (faults : Array Fault),
      Derives .declarations input rest trees → Statement.AllElseNearest trees →
      input.length ≤ count → input.length ≤ remaining →
      ∃ ids fewer later, arena ≤ later ∧ Statement.AllAt trees later ids ∧ rest.length ≤ fewer ∧
        declarationsBefore read closing remaining found ⟨input, ending, arena, faults⟩ =
          declarationsBefore read closing fewer (found ++ ids) ⟨rest, ending, later, faults⟩
  | [], _, remaining, found, ending, arena, faults, derivation, _, _, enough => by
      cases derivation with
      | done => exact ⟨[], remaining, arena, Arena.le_refl _, by simp, enough, by simp⟩
  | tree :: trees, input, remaining, found, ending, arena, faults, derivation, nearest, bound,
      enough => by
      cases derivation with
      | next first others =>
          rw [Statement.allElseNearest_cons] at nearest
          have firstLength := first.length_le
          simp only [Form.least] at firstLength
          obtain ⟨remaining, rfl⟩ : ∃ fewer, remaining = fewer + 1 := ⟨remaining - 1, by omega⟩
          obtain ⟨id, between, before, stands, equation⟩ :=
            declaration_of_derives expressions statements first nearest.1 bound
              (noElse_of_declarations others noElse) ending arena faults
          obtain ⟨ids, fewer, later, after, stand, left, othersEquation⟩ :=
            declarationsBefore_goesOn_of_derives expressions statements closes noElse
              remaining (found.push (some id)) ending between faults others nearest.2 (by omega)
              (by omega)
          refine ⟨some id :: ids, fewer, later, Arena.le_trans before after,
            (Statement.allAt_cons ..).mpr ⟨stands.mono after, stand⟩, left, ?_⟩
          obtain ⟨token, tokens, rfl, opener⟩ := first.opens rfl
          have different : some token.kind ≠ closing := by
            intro same
            rw [← same] at closes
            simp only [List.mem_cons, reduceCtorEq, Option.some.injEq, List.not_mem_nil, or_false,
              false_or] at closes
            rcases opener with member | ⟨-, word⟩
            · rw [closes] at member
              revert member
              decide
            · rw [closes] at word
              cases word
          rw [declarationsBefore_succ rfl different, equation, othersEquation]
          simp

/-- Declarations are read one after the other, up to the end or to the token that
closes them. -/
theorem declarationsBefore_of_derives
    (expressions : ReadsExpressions read count)
    (statements : ReadsStatements read count)
    {closing : Option Kind}
    (closes : closing ∈ [none, some Kind.rightBrace])
    {trees : List Statement}
    {input rest : List Token}
    (closed : ∀ token ∈ rest.head?, some token.kind = closing)
    (remaining : Nat)
    (found : Array (Option NodeId))
    (ending : Token)
    (arena : Arena)
    (faults : Array Fault)
    (derivation : Derives .declarations input rest trees)
    (nearest : Statement.AllElseNearest trees)
    (bound : input.length ≤ count)
    (enough : input.length ≤ remaining) :
    ∃ ids later, arena ≤ later ∧ Statement.AllAt trees later ids ∧
      declarationsBefore read closing remaining found ⟨input, ending, arena, faults⟩ =
        (found.toList ++ ids, ⟨rest, ending, later, faults⟩) := by
  have noElse : NoElse rest := by
    intro token head same
    have kind := closed token head
    rw [same] at kind
    rw [← kind] at closes
    revert closes
    decide
  obtain ⟨ids, fewer, later, before, stand, -, equation⟩ :=
    declarationsBefore_goesOn_of_derives expressions statements closes noElse remaining found
      ending arena faults derivation nearest bound enough
  refine ⟨ids, later, before, stand, ?_⟩
  rw [equation]
  cases rest with
  | nil => rw [declarationsBefore_of_nil rfl, Array.toList_appendList]
  | cons token others =>
      rw [declarationsBefore_of_closing rfl (closed token rfl), Array.toList_appendList]

/-- The declarations of a block are read up to its closing brace, which is taken. -/
theorem reads_blockRest
    (expressions : ReadsExpressions read count)
    (statements : ReadsStatements read count)
    (enough : count + 1 ≤ rounds)
    {closing : Token}
    {input rest : List Token}
    {trees : List Statement}
    (derivation : Derives .declarations input (closing :: rest) trees)
    (closes : closing.kind = .rightBrace)
    (nearest : Statement.AllElseNearest trees)
    (bound : input.length ≤ count) :
    Reads (blockRest read rounds) input rest (Statement.AllAt trees) := by
  intro ending arena faults
  have closed : ∀ token ∈ (closing :: rest).head?, some token.kind = some Kind.rightBrace := by
    simp [closes]
  obtain ⟨ids, later, before, stand, equation⟩ :=
    declarationsBefore_of_derives expressions statements (by simp) closed rounds #[]
      ending arena faults derivation nearest bound (by omega)
  refine ⟨ids, later, before, stand, ?_⟩
  have found : unfailing (declarationsBefore read (some .rightBrace) rounds #[])
      ⟨input, ending, arena, faults⟩ = .ok ids ⟨closing :: rest, ending, later, faults⟩ := by
    simp [unfailing, equation]
  rw [blockRest, bind_of_ok found, bind_of_ok (expect_of_eq _ _ _ _ _ closes)]
  rfl

/-! ## Statements -/

theorem reads_parameter
    {name : Token}
    (named : name.kind = .identifier)
    (rest : List Token) :
    Reads parameter (name :: rest) rest fun arena id =>
      (parameterRose name).StandsAt arena (some id) := by
  intro ending arena faults
  refine exists_of_addNode ?_ (Arena.le_refl _) ((Rose.allStandAt_nil _).mpr rfl)
  rw [parameter, bind_of_ok (expect_of_eq _ _ _ _ _ named)]
  rfl

theorem reads_names
    {input rest names : List Token}
    (derivation : Names input rest names)
    (noComma : ∀ token ∈ rest.head?, token.kind ≠ Kind.comma)
    (remaining : Nat)
    (enough : input.length ≤ remaining)
    (found : Array (Option NodeId)) :
    Reads (separated parameter remaining found) input rest fun arena all =>
      ∃ ids, all = found ++ ids.toArray ∧
        Rose.AllStandAt arena (names.map parameterRose) ids := by
  induction derivation generalizing remaining found with
  | last named =>
      rw [List.length_cons] at enough
      obtain ⟨remaining, rfl⟩ : ∃ fewer, remaining = fewer + 1 := ⟨remaining - 1, by omega⟩
      intro ending arena faults
      obtain ⟨all, later, before, ⟨id, rfl, stands⟩, ends⟩ :=
        reads_separated_last (reads_parameter named _) noComma remaining found ending arena faults
      exact ⟨_, later, before, ⟨[some id], by simp, by simpa using stands⟩, ends⟩
  | more named comma others inductionHypothesis =>
      rw [List.length_cons, List.length_cons] at enough
      obtain ⟨remaining, rfl⟩ : ∃ fewer, remaining = fewer + 1 := ⟨remaining - 1, by omega⟩
      intro ending arena faults
      obtain ⟨all, later, before, ⟨id, earlier, after, stands, ids, rfl, stand⟩, ends⟩ :=
        reads_separated_more (reads_parameter named _) comma
          (inductionHypothesis noComma remaining (by omega)) ending arena faults
      refine ⟨_, later, before, ⟨some id :: ids, by simp, ?_⟩, ends⟩
      simpa using ⟨stands.mono after, stand⟩

theorem reads_parameters
    {closing : Token}
    {input rest names : List Token}
    (derivation : Parameters input (closing :: rest) names)
    (closes : closing.kind = .rightParen)
    (enough : input.length ≤ rounds) :
    Reads (itemsBefore .rightParen parameter rounds) input (closing :: rest) fun arena ids =>
      Rose.AllStandAt arena (names.map parameterRose) ids := by
  intro ending arena faults
  cases derivation with
  | nothing =>
      obtain ⟨ids, later, before, rfl, ends⟩ :=
        reads_itemsBefore_nothing closes parameter rest ending arena faults
      exact ⟨[], later, before, (Rose.allStandAt_nil _).mpr rfl, ends⟩
  | listed derivation =>
      have noComma : ∀ token ∈ (closing :: rest).head?, token.kind ≠ Kind.comma := by
        simp [closes]
      have items := reads_names derivation noComma rounds enough #[]
      obtain ⟨first, tokens, rfl, named⟩ :
          ∃ first tokens, input = first :: tokens ∧ first.kind = .identifier := by
        cases derivation with
        | last named => exact ⟨_, _, rfl, named⟩
        | more named => exact ⟨_, _, rfl, named⟩
      have different : first.kind ≠ Kind.rightParen := by
        simp [named]
      obtain ⟨ids, later, before, ⟨others, same, stand⟩, ends⟩ :=
        reads_itemsBefore_listed different items ending arena faults
      obtain rfl : ids = others := by simpa using same
      exact ⟨ids, later, before, stand, ends⟩

theorem reads_function
    (expressions : ReadsExpressions read count)
    (statements : ReadsStatements read count)
    (enough : count + 1 ≤ rounds)
    {word name opening closing brace ending : Token}
    {input middle rest parameters : List Token}
    {body : List Statement}
    (fnWord : word.kind = .keyword .fnWord)
    (named : name.kind = .identifier)
    (opens : opening.kind = .leftParen)
    (derivation : Parameters input (closing :: brace :: middle) parameters)
    (closes : closing.kind = .rightParen)
    (braced : brace.kind = .leftBrace)
    (inside : Derives .declarations middle (ending :: rest) body)
    (ends : ending.kind = .rightBrace)
    (nearest : Statement.AllElseNearest body)
    (bound : input.length ≤ count) :
    Reads (Tree.statement read rounds) (word :: name :: opening :: input) rest
      (Statement.function name parameters brace body).At := by
  intro last arena faults
  have shorter := derivation.length_le
  simp only [List.length_cons] at shorter
  obtain ⟨ids, between, before, stand, parametersEnd⟩ :=
    reads_parameters derivation closes (by omega : input.length ≤ rounds) last arena faults
  obtain ⟨bodyIds, later, after, bodyStands, bodyEnds⟩ :=
    reads_blockRest expressions statements enough inside ends nearest (by omega) last between faults
  have bodyStanding : (Rose.node .block brace none (Statement.roses body)).StandsAt
      (later.add ⟨.block, brace, none, bodyIds⟩) (some later.nextId) :=
    Rose.standsAt_add bodyStands
  have added : later ≤ later.add ⟨.block, brace, none, bodyIds⟩ := later.le_add _
  refine exists_of_addNode ?_ (Arena.le_trans before (Arena.le_trans after added))
    ((Rose.allStandAt_append ..).mpr ⟨ids, [some later.nextId], rfl,
      stand.mono (Arena.le_trans after added),
      (Rose.allStandAt_singleton ..).mpr ⟨_, rfl, bodyStanding⟩⟩)
  rw [Tree.statement, bind_of_ok (peek_cons ..)]
  simp only [fnWord]
  rw [bind_of_ok (skip_cons ..), functionDeclaration,
    bind_of_ok (expect_of_eq _ _ _ _ _ named), bind_of_ok (expect_of_eq _ _ _ _ _ opens),
    bind_of_ok parametersEnd, bind_of_ok (expect_of_eq _ _ _ _ _ closes),
    bind_of_ok (expect_of_eq _ _ _ _ _ braced), bind_of_ok bodyEnds]
  rfl

theorem reads_echo
    {word semicolon : Token}
    {input rest : List Token}
    {value : Expression}
    (echoWord : word.kind = .keyword .echoWord)
    (inside : Reads (read .expression) input (semicolon :: rest) value.At)
    (ends : semicolon.kind = .semicolon) :
    Reads (Tree.statement read rounds) (word :: input) rest (Statement.echo word value).At := by
  intro last arena faults
  obtain ⟨id, later, before, stands, valueEnds⟩ := inside last arena faults
  refine exists_of_addNode ?_ before ((Rose.allStandAt_singleton _ _).mpr ⟨some id, rfl, stands⟩)
  rw [Tree.statement, bind_of_ok (peek_cons ..)]
  simp only [echoWord]
  rw [bind_of_ok (skip_cons ..), bind_of_ok valueEnds, bind_of_ok (expect_of_eq _ _ _ _ _ ends)]
  rfl

theorem reads_branch
    {word opening closing : Token}
    {input middle rest : List Token}
    {condition : Expression}
    {consequence : Statement}
    (ifWord : word.kind = .keyword .ifWord)
    (opens : opening.kind = .leftParen)
    (inside : Reads (read .expression) input (closing :: middle) condition.At)
    (closes : closing.kind = .rightParen)
    (inner : Reads (read .statement) middle rest consequence.At)
    (noElse : NoElse rest) :
    Reads (Tree.statement read rounds) (word :: opening :: input) rest
      (Statement.branch word condition consequence).At := by
  intro last arena faults
  obtain ⟨id, between, before, stands, conditionEnds⟩ := inside last arena faults
  obtain ⟨innerId, later, after, innerStands, innerEnds⟩ := inner last between faults
  refine exists_of_addNode ?_ (Arena.le_trans before after)
    ((Rose.allStandAt_cons_cons ..).mpr ⟨stands.mono after,
      (Rose.allStandAt_pair ..).mpr ⟨_, none, rfl, innerStands, (Rose.standsAt_absent _).mpr rfl⟩⟩)
  rw [Tree.statement, bind_of_ok (peek_cons ..)]
  simp only [ifWord]
  rw [bind_of_ok (skip_cons ..), branch, bind_of_ok (expect_of_eq _ _ _ _ _ opens),
    bind_of_ok conditionEnds, bind_of_ok (expect_of_eq _ _ _ _ _ closes), bind_of_ok innerEnds,
    bind_of_ok (accept_of_ne _ _ _ noElse)]
  rfl

theorem reads_choice
    {word opening closing other : Token}
    {input middle following rest : List Token}
    {condition : Expression}
    {consequence alternative : Statement}
    (ifWord : word.kind = .keyword .ifWord)
    (opens : opening.kind = .leftParen)
    (inside : Reads (read .expression) input (closing :: middle) condition.At)
    (closes : closing.kind = .rightParen)
    (inner : Reads (read .statement) middle (other :: following) consequence.At)
    (elseWord : other.kind = .keyword .elseWord)
    (outer : Reads (read .statement) following rest alternative.At) :
    Reads (Tree.statement read rounds) (word :: opening :: input) rest
      (Statement.choice word condition consequence alternative).At := by
  intro last arena faults
  obtain ⟨id, first, before, stands, conditionEnds⟩ := inside last arena faults
  obtain ⟨innerId, second, between, innerStands, innerEnds⟩ := inner last first faults
  obtain ⟨outerId, later, after, outerStands, outerEnds⟩ := outer last second faults
  refine exists_of_addNode ?_ (Arena.le_trans before (Arena.le_trans between after))
    ((Rose.allStandAt_cons_cons ..).mpr ⟨stands.mono (Arena.le_trans between after),
      (Rose.allStandAt_pair ..).mpr ⟨_, _, rfl, innerStands.mono after, outerStands⟩⟩)
  rw [Tree.statement, bind_of_ok (peek_cons ..)]
  simp only [ifWord]
  rw [bind_of_ok (skip_cons ..), branch, bind_of_ok (expect_of_eq _ _ _ _ _ opens),
    bind_of_ok conditionEnds, bind_of_ok (expect_of_eq _ _ _ _ _ closes), bind_of_ok innerEnds,
    bind_of_ok (accept_of_eq _ _ _ _ elseWord)]
  simp only [map_eq_bind, bind_assoc]
  rw [bind_of_ok outerEnds]
  rfl

theorem reads_loop
    {word opening closing : Token}
    {input middle rest : List Token}
    {condition : Expression}
    {body : Statement}
    (whileWord : word.kind = .keyword .whileWord)
    (opens : opening.kind = .leftParen)
    (inside : Reads (read .expression) input (closing :: middle) condition.At)
    (closes : closing.kind = .rightParen)
    (inner : Reads (read .statement) middle rest body.At) :
    Reads (Tree.statement read rounds) (word :: opening :: input) rest
      (Statement.loop word condition body).At := by
  intro last arena faults
  obtain ⟨id, between, before, stands, conditionEnds⟩ := inside last arena faults
  obtain ⟨innerId, later, after, innerStands, innerEnds⟩ := inner last between faults
  refine exists_of_addNode ?_ (Arena.le_trans before after)
    ((Rose.allStandAt_pair ..).mpr ⟨_, _, rfl, stands.mono after, innerStands⟩)
  rw [Tree.statement, bind_of_ok (peek_cons ..)]
  simp only [whileWord]
  rw [bind_of_ok (skip_cons ..), loop, bind_of_ok (expect_of_eq _ _ _ _ _ opens),
    bind_of_ok conditionEnds, bind_of_ok (expect_of_eq _ _ _ _ _ closes), bind_of_ok innerEnds]
  rfl

theorem reads_giveNothing
    {word semicolon : Token}
    (returnWord : word.kind = .keyword .returnWord)
    (ends : semicolon.kind = .semicolon)
    (rest : List Token) :
    Reads (Tree.statement read rounds) (word :: semicolon :: rest) rest
      (Statement.giveBack word none).At := by
  intro last arena faults
  refine exists_of_addNode ?_ (Arena.le_refl _)
    ((Rose.allStandAt_singleton _ _).mpr ⟨none, rfl, (Rose.standsAt_absent _).mpr rfl⟩)
  rw [Tree.statement, bind_of_ok (peek_cons ..)]
  simp only [returnWord]
  rw [bind_of_ok (skip_cons ..), giveBack]
  rw [bind_of_ok (check_of_eq _ _ _ _ ends)]
  simp only [if_true, pure_bind]
  rw [bind_of_ok (expect_of_eq _ _ _ _ _ ends)]
  rfl

theorem reads_giveBack
    {word semicolon first : Token}
    {input rest : List Token}
    {value : Expression}
    (returnWord : word.kind = .keyword .returnWord)
    (inside : Reads (read .expression) (first :: input) (semicolon :: rest) value.At)
    (opens : first.kind ≠ .semicolon)
    (ends : semicolon.kind = .semicolon) :
    Reads (Tree.statement read rounds) (word :: first :: input) rest
      (Statement.giveBack word (some value)).At := by
  intro last arena faults
  obtain ⟨id, later, before, stands, valueEnds⟩ := inside last arena faults
  refine exists_of_addNode ?_ before ((Rose.allStandAt_singleton _ _).mpr ⟨some id, rfl, stands⟩)
  rw [Tree.statement, bind_of_ok (peek_cons ..)]
  simp only [returnWord]
  rw [bind_of_ok (skip_cons ..), giveBack, bind_of_ok (check_of_ne _ _ _ _ opens)]
  simp only [Bool.false_eq_true, if_false, map_eq_bind, bind_assoc]
  rw [bind_of_ok valueEnds]
  simp only [pure_bind]
  rw [bind_of_ok (expect_of_eq _ _ _ _ _ ends)]
  rfl

theorem reads_block
    {brace : Token}
    {input rest : List Token}
    {body : List Statement}
    (opens : brace.kind = .leftBrace)
    (inside : Reads (blockRest read rounds) input rest (Statement.AllAt body)) :
    Reads (Tree.statement read rounds) (brace :: input) rest (Statement.block brace body).At := by
  intro last arena faults
  obtain ⟨ids, later, before, stand, bodyEnds⟩ := inside last arena faults
  refine exists_of_addNode ?_ before stand
  rw [Tree.statement, bind_of_ok (peek_cons ..)]
  simp only [opens]
  rw [bind_of_ok (skip_cons ..), bind_of_ok bodyEnds]
  rfl

/-- What begins like an expression is an expression and its semicolon. -/
theorem statement_of_opener
    {first : Token}
    (opens : first.kind ∈ Expression.Form.full.openers)
    (others : List Token)
    (ending : Token)
    (arena : Arena)
    (faults : Array Fault) :
    Tree.statement read rounds ⟨first :: others, ending, arena, faults⟩ =
      (do
        let value ← Tree.expression read rounds
        let semicolon ← expect .semicolon "expected ';' after expression"
        add .discard semicolon [some value]) ⟨first :: others, ending, arena, faults⟩ := by
  rw [Tree.statement, bind_of_ok (peek_cons ..)]
  -- No keyword of a statement and no brace opens an expression.
  simp only [Expression.Form.openers, Expression.simpleOpeners, List.mem_cons, List.not_mem_nil,
    or_false] at opens
  rcases opens with kind | kind | kind | kind | kind | kind | kind | kind | kind | kind <;>
    simp only [kind]

theorem reads_discard
    {first semicolon : Token}
    {input rest : List Token}
    {value : Expression}
    (opens : first.kind ∈ Expression.Form.full.openers)
    (inside : Reads (Tree.expression read rounds) (first :: input) (semicolon :: rest) value.At)
    (ends : semicolon.kind = .semicolon) :
    Reads (Tree.statement read rounds) (first :: input) rest
      (Statement.discard semicolon value).At := by
  intro last arena faults
  obtain ⟨id, later, before, stands, valueEnds⟩ := inside last arena faults
  refine exists_of_addNode ?_ before ((Rose.allStandAt_singleton _ _).mpr ⟨some id, rfl, stands⟩)
  rw [statement_of_opener opens, bind_of_ok valueEnds, bind_of_ok (expect_of_eq _ _ _ _ _ ends)]
  rfl

/-- The rule for statements reads every statement of the grammar. -/
theorem reads_statement
    (expressions : ReadsExpressions read count)
    (statements : ReadsStatements read count)
    (enough : count + 1 ≤ rounds)
    {input rest : List Token}
    {tree : Statement}
    (derivation : Derives .statement input rest tree)
    (nearest : tree.ElseNearest)
    (bound : input.length ≤ count + 1)
    (mayEnd : tree.endsOpen = true → NoElse rest) :
    Reads (Tree.statement read rounds) input rest tree.At := by
  cases derivation with
  | function word named opens parameters closes braced body ends =>
      simp only [Statement.ElseNearest] at nearest
      simp only [List.length_cons] at bound
      exact reads_function expressions statements enough word named opens parameters closes braced
        body ends nearest (by omega)
  | echo word value ends =>
      simp only [List.length_cons] at bound
      exact reads_echo word (expressions.expression value (by omega)
        (Expression.Form.stops_of_mem (by simp [ends]))) ends
  | branch word opens condition closes inner =>
      simp only [Statement.ElseNearest] at nearest
      have shorter := condition.length_le
      simp only [List.length_cons] at bound shorter
      have noElse := mayEnd (by simp [Statement.endsOpen])
      exact reads_branch word opens
        (expressions.expression condition (by omega)
          (Expression.Form.stops_of_mem (by simp [closes])))
        closes (statements inner nearest (by omega) (fun _ => noElse)) noElse
  | choice word opens condition closes inner other outer =>
      simp only [Statement.ElseNearest] at nearest
      have shorter := condition.length_le
      have innerShorter := inner.length_le
      simp only [List.length_cons] at bound shorter innerShorter
      exact reads_choice word opens
        (expressions.expression condition (by omega)
          (Expression.Form.stops_of_mem (by simp [closes])))
        closes
        (statements inner nearest.2.1 (by omega) (fun isOpen => by simp [nearest.1] at isOpen))
        other (statements outer nearest.2.2 (by omega) (by simpa [Statement.endsOpen] using mayEnd))
  | loop word opens condition closes inner =>
      simp only [Statement.ElseNearest] at nearest
      have shorter := condition.length_le
      simp only [List.length_cons] at bound shorter
      exact reads_loop word opens
        (expressions.expression condition (by omega)
          (Expression.Form.stops_of_mem (by simp [closes])))
        closes (statements inner nearest (by omega) (by simpa [Statement.endsOpen] using mayEnd))
  | giveNothing word ends => exact reads_giveNothing word ends rest
  | giveBack word value ends =>
      simp only [List.length_cons] at bound
      have inside := expressions.expression value (by omega)
        (Expression.Form.stops_of_mem (by simp [ends]))
      obtain ⟨first, others, rfl, member⟩ := value.opens rfl
      refine reads_giveBack word inside (fun same => ?_) ends
      rw [same] at member
      revert member
      decide
  | block opens body ends =>
      simp only [Statement.ElseNearest] at nearest
      simp only [List.length_cons] at bound
      exact reads_block opens
        (reads_blockRest expressions statements enough body ends nearest (by omega))
  | discard value ends =>
      have inside := Expression.readAs_of_derives expressions enough value bound
        (Expression.Form.stops_of_mem (by simp [ends]))
      obtain ⟨first, others, rfl, member⟩ := value.opens rfl
      exact reads_discard member inside ends

/-- Within enough levels every statement is read. -/
theorem readsStatements_readWithin (count : Nat) :
    ReadsStatements (Phrase.readWithin count) count := by
  induction count with
  | zero =>
      intro input rest tree derivation nearest bound
      have nonempty := derivation.length_le
      simp only [Form.least] at nonempty
      omega
  | succ count inductionHypothesis =>
      intro input rest tree derivation nearest bound mayEnd ending arena faults
      rw [readWithin_succ]
      exact reads_statement (readsExpressions_readWithin count) inductionHypothesis
        (Nat.le_refl _) derivation nearest bound mayEnd ending arena faults

end Tree
end Scripting
