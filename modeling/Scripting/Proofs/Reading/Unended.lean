import Scripting.Proofs.Reading.Recovery

/-!
# Missing semicolons

Where the semicolon at the end of a program is missing and a keyword that opens a
statement stands in its place, the last declaration of the program fails at that keyword
(`NeedsSemicolon`).  Reading goes on behind the keyword and not at it, so the statement
that the keyword opens is lost too, and its tokens may be reported again.

Main statement: `readProgram_without_semicolon`.
-/

namespace Scripting
namespace Tree

open Token (Kind)
open Statement (Derives)

/-- What is expected at the end of a statement that ends with a semicolon; a statement
that ends with a brace expects nothing. -/
def Statement.wanted : Statement → Option Cause
  | .declaration _ _ => some (.expected "expected ';' after variable declaration")
  | .echo _ _ => some (.expected "expected ';' after value")
  | .discard _ _ => some (.expected "expected ';' after expression")
  | .block _ _ => none
  | .branch _ _ consequence => consequence.wanted
  | .choice _ _ _ alternative => alternative.wanted
  | .loop _ _ body => body.wanted
  | .function _ _ _ _ => none
  -- Without its semicolon a bare `return` goes on to read a value.
  | .giveBack _ none => some .expectedExpression
  | .giveBack _ (some _) => some (.expected "expected ';' after return value")

/-- The work takes the tokens of `input` before `rest` and fails there. -/
def FailsAt
    (work : Parse NodeId)
    (input rest : List Token)
    (cause : Cause) : Prop :=
  ∀ ending arena faults, ∃ later, arena ≤ later ∧
    work ⟨input, ending, arena, faults⟩ =
      .error (.atToken cause (rest.headD ending)) ⟨rest, ending, later, faults⟩

/-! ## Keywords that open a statement -/

section Keywords

variable
  {token : Token}
  (starts : token.kind.startsStatement = true)

include starts

theorem ne_of_startsStatement
    {kind : Kind}
    (quiet : kind.startsStatement = false) :
    token.kind ≠ kind := by
  rintro rfl
  simp [starts] at quiet

/-- No expression goes on with a keyword that opens a statement. -/
theorem stops_of_startsStatement (others : List Token) :
    Expression.Form.full.Stops (token :: others) := by
  rw [Expression.Form.stops_cons]
  have quiet : ∀ kind ∈ Expression.Form.full.extensions, kind.startsStatement = false := by
    decide
  exact fun member => ne_of_startsStatement starts (quiet _ member) rfl

/-- No expression begins with a keyword that opens a statement. -/
theorem not_opener_of_startsStatement : token.kind ∉ Expression.Form.full.openers := by
  have quiet : ∀ kind ∈ Expression.Form.full.openers, kind.startsStatement = false := by
    decide
  exact fun member => ne_of_startsStatement starts (quiet _ member) rfl

end Keywords

/-! ## One rule after the other -/

section Rules

variable
  {read : Phrase → Parse NodeId}
  {rounds : Nat}
  {input rest : List Token}

theorem failsAt_bareDeclaration
    {name : Token}
    (named : name.kind = .identifier)
    (noEqual : ∀ token ∈ rest.head?, token.kind ≠ Kind.equal)
    (noSemicolon : ∀ token ∈ rest.head?, token.kind ≠ Kind.semicolon) :
    FailsAt (variableDeclaration read) (name :: rest) rest
      (.expected "expected ';' after variable declaration") := by
  intro ending arena faults
  refine ⟨arena, Arena.le_refl _, ?_⟩
  rw [variableDeclaration, bind_of_ok (expect_of_eq _ _ _ _ _ named),
    bind_of_ok (accept_of_ne _ _ _ noEqual)]
  simp only [pure_bind]
  exact bind_of_error (expect_of_ne _ _ _ _ noSemicolon)

theorem failsAt_initializedDeclaration
    {name equals : Token}
    {value : Expression}
    (named : name.kind = .identifier)
    (equal : equals.kind = .equal)
    (inside : Reads (read .expression) input rest value.At)
    (noSemicolon : ∀ token ∈ rest.head?, token.kind ≠ Kind.semicolon) :
    FailsAt (variableDeclaration read) (name :: equals :: input) rest
      (.expected "expected ';' after variable declaration") := by
  intro ending arena faults
  obtain ⟨id, later, before, -, valueEnds⟩ := inside ending arena faults
  refine ⟨later, before, ?_⟩
  rw [variableDeclaration, bind_of_ok (expect_of_eq _ _ _ _ _ named),
    bind_of_ok (accept_of_eq _ _ _ _ equal)]
  simp only [map_eq_bind, bind_assoc]
  rw [bind_of_ok valueEnds]
  simp only [pure_bind]
  exact bind_of_error (expect_of_ne _ _ _ _ noSemicolon)

theorem failsAt_echo
    {word : Token}
    {value : Expression}
    (echoWord : word.kind = .keyword .echoWord)
    (inside : Reads (read .expression) input rest value.At)
    (noSemicolon : ∀ token ∈ rest.head?, token.kind ≠ Kind.semicolon) :
    FailsAt (Tree.statement read rounds) (word :: input) rest
      (.expected "expected ';' after value") := by
  intro ending arena faults
  obtain ⟨id, later, before, -, valueEnds⟩ := inside ending arena faults
  refine ⟨later, before, ?_⟩
  rw [Tree.statement, bind_of_ok (peek_cons ..)]
  simp only [echoWord]
  rw [bind_of_ok (skip_cons ..), bind_of_ok valueEnds]
  exact bind_of_error (expect_of_ne _ _ _ _ noSemicolon)

theorem failsAt_branch
    {word opening closing : Token}
    {middle : List Token}
    {condition : Expression}
    {cause : Cause}
    (ifWord : word.kind = .keyword .ifWord)
    (opens : opening.kind = .leftParen)
    (inside : Reads (read .expression) input (closing :: middle) condition.At)
    (closes : closing.kind = .rightParen)
    (inner : FailsAt (read .statement) middle rest cause) :
    FailsAt (Tree.statement read rounds) (word :: opening :: input) rest cause := by
  intro ending arena faults
  obtain ⟨id, between, before, -, conditionEnds⟩ := inside ending arena faults
  obtain ⟨later, after, innerFails⟩ := inner ending between faults
  refine ⟨later, Arena.le_trans before after, ?_⟩
  rw [Tree.statement, bind_of_ok (peek_cons ..)]
  simp only [ifWord]
  rw [bind_of_ok (skip_cons ..), branch, bind_of_ok (expect_of_eq _ _ _ _ _ opens),
    bind_of_ok conditionEnds, bind_of_ok (expect_of_eq _ _ _ _ _ closes)]
  exact bind_of_error innerFails

theorem failsAt_choice
    {word opening closing other : Token}
    {middle following : List Token}
    {condition : Expression}
    {consequence : Statement}
    {cause : Cause}
    (ifWord : word.kind = .keyword .ifWord)
    (opens : opening.kind = .leftParen)
    (inside : Reads (read .expression) input (closing :: middle) condition.At)
    (closes : closing.kind = .rightParen)
    (inner : Reads (read .statement) middle (other :: following) consequence.At)
    (elseWord : other.kind = .keyword .elseWord)
    (outer : FailsAt (read .statement) following rest cause) :
    FailsAt (Tree.statement read rounds) (word :: opening :: input) rest cause := by
  intro ending arena faults
  obtain ⟨id, first, before, -, conditionEnds⟩ := inside ending arena faults
  obtain ⟨innerId, second, between, -, innerEnds⟩ := inner ending first faults
  obtain ⟨later, after, outerFails⟩ := outer ending second faults
  refine ⟨later, Arena.le_trans before (Arena.le_trans between after), ?_⟩
  rw [Tree.statement, bind_of_ok (peek_cons ..)]
  simp only [ifWord]
  rw [bind_of_ok (skip_cons ..), branch, bind_of_ok (expect_of_eq _ _ _ _ _ opens),
    bind_of_ok conditionEnds, bind_of_ok (expect_of_eq _ _ _ _ _ closes), bind_of_ok innerEnds,
    bind_of_ok (accept_of_eq _ _ _ _ elseWord)]
  simp only [map_eq_bind, bind_assoc]
  exact bind_of_error outerFails

theorem failsAt_loop
    {word opening closing : Token}
    {middle : List Token}
    {condition : Expression}
    {cause : Cause}
    (whileWord : word.kind = .keyword .whileWord)
    (opens : opening.kind = .leftParen)
    (inside : Reads (read .expression) input (closing :: middle) condition.At)
    (closes : closing.kind = .rightParen)
    (inner : FailsAt (read .statement) middle rest cause) :
    FailsAt (Tree.statement read rounds) (word :: opening :: input) rest cause := by
  intro ending arena faults
  obtain ⟨id, between, before, -, conditionEnds⟩ := inside ending arena faults
  obtain ⟨later, after, innerFails⟩ := inner ending between faults
  refine ⟨later, Arena.le_trans before after, ?_⟩
  rw [Tree.statement, bind_of_ok (peek_cons ..)]
  simp only [whileWord]
  rw [bind_of_ok (skip_cons ..), loop, bind_of_ok (expect_of_eq _ _ _ _ _ opens),
    bind_of_ok conditionEnds, bind_of_ok (expect_of_eq _ _ _ _ _ closes)]
  exact bind_of_error innerFails

/-- Where the semicolon of a bare `return` is missing a value is read. -/
theorem failsAt_giveNothing
    {word first : Token}
    {others : List Token}
    (returnWord : word.kind = .keyword .returnWord)
    (different : first.kind ≠ .semicolon)
    (fails : FailsAt (read .expression) (first :: others) rest .expectedExpression) :
    FailsAt (Tree.statement read rounds) (word :: first :: others) rest .expectedExpression := by
  intro ending arena faults
  obtain ⟨later, before, valueFails⟩ := fails ending arena faults
  refine ⟨later, before, ?_⟩
  rw [Tree.statement, bind_of_ok (peek_cons ..)]
  simp only [returnWord]
  rw [bind_of_ok (skip_cons ..), giveBack, bind_of_ok (check_of_ne _ _ _ _ different)]
  simp only [Bool.false_eq_true, if_false, map_eq_bind, bind_assoc]
  exact bind_of_error valueFails

theorem failsAt_giveBack
    {word first : Token}
    {others : List Token}
    {value : Expression}
    (returnWord : word.kind = .keyword .returnWord)
    (inside : Reads (read .expression) (first :: others) rest value.At)
    (opens : first.kind ≠ .semicolon)
    (noSemicolon : ∀ token ∈ rest.head?, token.kind ≠ Kind.semicolon) :
    FailsAt (Tree.statement read rounds) (word :: first :: others) rest
      (.expected "expected ';' after return value") := by
  intro ending arena faults
  obtain ⟨id, later, before, -, valueEnds⟩ := inside ending arena faults
  refine ⟨later, before, ?_⟩
  rw [Tree.statement, bind_of_ok (peek_cons ..)]
  simp only [returnWord]
  rw [bind_of_ok (skip_cons ..), giveBack, bind_of_ok (check_of_ne _ _ _ _ opens)]
  simp only [Bool.false_eq_true, if_false, map_eq_bind, bind_assoc]
  rw [bind_of_ok valueEnds]
  simp only [pure_bind]
  exact bind_of_error (expect_of_ne _ _ _ _ noSemicolon)

theorem failsAt_discard
    {first : Token}
    {others : List Token}
    {value : Expression}
    (opens : first.kind ∈ Expression.Form.full.openers)
    (inside : Reads (Tree.expression read rounds) (first :: others) rest value.At)
    (noSemicolon : ∀ token ∈ rest.head?, token.kind ≠ Kind.semicolon) :
    FailsAt (Tree.statement read rounds) (first :: others) rest
      (.expected "expected ';' after expression") := by
  intro ending arena faults
  obtain ⟨id, later, before, -, valueEnds⟩ := inside ending arena faults
  refine ⟨later, before, ?_⟩
  rw [statement_of_opener opens, bind_of_ok valueEnds]
  exact bind_of_error (expect_of_ne _ _ _ _ noSemicolon)

end Rules

/-! ## Statements and declarations -/

/-- The tokens of `input` before `rest` end with a semicolon, and where a keyword that
opens a statement stands in its place every reader of as many tokens fails at it. -/
def NeedsSemicolon
    (reader : Nat → Parse NodeId)
    (input rest : List Token)
    (cause : Cause) : Prop :=
  ∃ front semicolon, input = front ++ semicolon :: rest ∧ semicolon.kind = .semicolon ∧
    ∀ count token others, (front ++ token :: others).length ≤ count →
      token.kind.startsStatement = true →
        FailsAt (reader count) (front ++ token :: others) (token :: others) cause

/-- A statement needs its semicolon when its rule fails without it. -/
theorem needsSemicolon_statement
    {first semicolon : Token}
    {front rest : List Token}
    {cause : Cause}
    (ends : semicolon.kind = .semicolon)
    (fails : ∀ count token others, (front ++ token :: others).length ≤ count →
      token.kind.startsStatement = true →
        FailsAt (Tree.statement (Phrase.readWithin count) (count + 1))
          (first :: (front ++ token :: others)) (token :: others) cause) :
    NeedsSemicolon (fun count => Phrase.readWithin count .statement)
      (first :: (front ++ semicolon :: rest)) rest cause := by
  refine ⟨first :: front, semicolon, rfl, ends, fun count token others enough starts => ?_⟩
  rw [List.cons_append, List.length_cons] at enough
  obtain ⟨count, rfl⟩ : ∃ fewer, count = fewer + 1 := ⟨count - 1, by omega⟩
  intro ending arena faults
  simp only [readWithin_succ]
  exact fails count token others (by omega) starts ending arena faults

/-- A statement needs the semicolon of the statement at its end when its rule fails where
that one fails. -/
theorem NeedsSemicolon.at_end
    {first : Token}
    {taken middle rest : List Token}
    {cause : Cause}
    (needs : NeedsSemicolon (fun count => Phrase.readWithin count .statement) middle rest cause)
    (fails : ∀ count following stuck, (taken ++ following).length ≤ count →
      FailsAt (Phrase.readWithin count .statement) following stuck cause →
        FailsAt (Tree.statement (Phrase.readWithin count) (count + 1))
          (first :: (taken ++ following)) stuck cause) :
    NeedsSemicolon (fun count => Phrase.readWithin count .statement)
      (first :: (taken ++ middle)) rest cause := by
  obtain ⟨front, semicolon, rfl, ends, inner⟩ := needs
  rw [← List.append_assoc]
  refine needsSemicolon_statement ends fun count token others enough starts => ?_
  rw [List.append_assoc] at enough ⊢
  refine fails count _ _ enough (inner count token others ?_ starts)
  rw [List.length_append] at enough
  omega

/-- What ends the rest behind a condition in parentheses ends the whole. -/
theorem suffix_of_condition
    {word opening closing : Token}
    {input middle part : List Token}
    {condition : Expression}
    (derivation : Expression.Derives .full input (closing :: middle) condition)
    (suffix : part <:+ middle) :
    part <:+ word :: opening :: input := by
  obtain ⟨taken, rfl, -⟩ := derivation.exists_taken
  have inside : part <:+ closing :: middle := suffix.trans (List.suffix_cons closing middle)
  exact inside.trans (List.suffix_append (word :: opening :: taken) _)

/-- What wants nothing ends with a brace. -/
theorem exists_brace_of_wanted_eq_none
    {rest : List Token} :
    ∀ {tree : Statement} {input : List Token}, Derives .statement input rest tree →
      tree.wanted = none → ∃ brace : Token, brace.kind = .rightBrace ∧ brace :: rest <:+ input
  | .block opening _, _, derivation, _ => by
      cases derivation with
      | @block _ ending _ _ _ opens body ends =>
          obtain ⟨taken, rfl, -⟩ := body.exists_taken
          exact ⟨ending, ends, List.suffix_append (opening :: taken) _⟩
  | .function name _ brace _, _, derivation, _ => by
      cases derivation with
      | @function word _ opening closing _ ending _ _ _ _ _ fnWord named opens parameters closes
          braced body ends =>
          obtain ⟨bodyTaken, rfl, -⟩ := body.exists_taken
          obtain ⟨taken, rfl, -⟩ := parameters.exists_taken
          have inside : ending :: rest <:+ closing :: brace :: (bodyTaken ++ ending :: rest) :=
            List.suffix_append (closing :: brace :: bodyTaken) _
          exact ⟨ending, ends,
            inside.trans (List.suffix_append (word :: name :: opening :: taken) _)⟩
  | .branch _ _ consequence, _, derivation, nothing => by
      cases derivation with
      | branch word opens condition closes inner =>
          simp only [Statement.wanted] at nothing
          obtain ⟨brace, ends, suffix⟩ := exists_brace_of_wanted_eq_none inner nothing
          exact ⟨brace, ends, suffix_of_condition condition suffix⟩
  | .choice _ _ _ alternative, _, derivation, nothing => by
      cases derivation with
      | @choice _ _ _ elseWord _ _ following _ _ _ _ word opens condition closes inner other
          outer =>
          simp only [Statement.wanted] at nothing
          obtain ⟨brace, ends, suffix⟩ := exists_brace_of_wanted_eq_none outer nothing
          obtain ⟨taken, rfl, -⟩ := inner.exists_taken
          have behind : elseWord :: following <:+ taken ++ elseWord :: following :=
            List.suffix_append _ _
          exact ⟨brace, ends, suffix_of_condition condition
            ((suffix.trans (List.suffix_cons elseWord following)).trans behind)⟩
  | .loop _ _ body, _, derivation, nothing => by
      cases derivation with
      | loop word opens condition closes inner =>
          simp only [Statement.wanted] at nothing
          obtain ⟨brace, ends, suffix⟩ := exists_brace_of_wanted_eq_none inner nothing
          exact ⟨brace, ends, suffix_of_condition condition suffix⟩
  | .declaration _ _, _, _, nothing => by simp [Statement.wanted] at nothing
  | .echo _ _, _, _, nothing => by simp [Statement.wanted] at nothing
  | .discard _ _, _, _, nothing => by simp [Statement.wanted] at nothing
  | .giveBack _ none, _, _, nothing => by simp [Statement.wanted] at nothing
  | .giveBack _ (some _), _, _, nothing => by simp [Statement.wanted] at nothing

/-- A statement that wants something lacks it where its semicolon is missing. -/
theorem needsSemicolon_of_derives
    {rest : List Token}
    {cause : Cause} :
    ∀ {tree : Statement} {input : List Token}, Derives .statement input rest tree →
      tree.ElseNearest → tree.wanted = some cause →
        NeedsSemicolon (fun count => Phrase.readWithin count .statement) input rest cause
  | .echo _ _, _, derivation, _, wants => by
      cases derivation with
      | echo word value ends =>
          simp only [Statement.wanted, Option.some.injEq] at wants
          obtain ⟨taken, rfl, again⟩ := value.exists_taken
          refine needsSemicolon_statement ends fun count token others enough starts => ?_
          have inside := (readsExpressions_readWithin count).expression (again (token :: others))
            enough (stops_of_startsStatement starts others)
          exact wants ▸ failsAt_echo word inside (by simpa using ne_of_startsStatement starts rfl)
  | .discard _ _, _, derivation, _, wants => by
      cases derivation with
      | discard value ends =>
          simp only [Statement.wanted, Option.some.injEq] at wants
          obtain ⟨first, opened, rfl, opener⟩ := value.opens rfl
          obtain ⟨taken, equation, again⟩ := value.exists_taken
          cases taken with
          | nil =>
              cases equation
              exact absurd (ends ▸ opener) (by decide)
          | cons first taken =>
              cases equation
              refine needsSemicolon_statement ends fun count token others enough starts => ?_
              have inside := Expression.readAs_of_derives (readsExpressions_readWithin count)
                (Nat.le_refl _) (again (token :: others)) (Nat.succ_le_succ enough)
                (stops_of_startsStatement starts others)
              exact wants ▸ failsAt_discard opener inside
                (by simpa using ne_of_startsStatement starts rfl)
  | .giveBack _ none, _, derivation, _, wants => by
      cases derivation with
      | giveNothing word ends =>
          simp only [Statement.wanted, Option.some.injEq] at wants
          refine @needsSemicolon_statement _ _ [] _ _ ends
            fun count token others enough starts => ?_
          have fails : FailsAt (Phrase.readWithin count .expression) (token :: others)
              (token :: others) .expectedExpression := fun ending arena faults =>
            let cursor : Cursor := ⟨token :: others, ending, arena, faults⟩
            have noOpener : cursor.current.kind ∉ Expression.Form.full.openers :=
              not_opener_of_startsStatement starts
            ⟨arena, Arena.le_refl _, readWithin_expression_of_not_opener noOpener count⟩
          exact wants ▸ failsAt_giveNothing word (ne_of_startsStatement starts rfl) fails
  | .giveBack _ (some _), _, derivation, _, wants => by
      cases derivation with
      | giveBack word value ends =>
          simp only [Statement.wanted, Option.some.injEq] at wants
          obtain ⟨taken, rfl, again⟩ := value.exists_taken
          refine needsSemicolon_statement ends fun count token others enough starts => ?_
          have inside := (readsExpressions_readWithin count).expression (again (token :: others))
            enough (stops_of_startsStatement starts others)
          obtain ⟨first, opened, equation, opener⟩ := (again (token :: others)).opens rfl
          have different : first.kind ≠ .semicolon := fun same =>
            absurd (same ▸ opener) (by decide)
          rw [equation] at inside ⊢
          exact wants ▸ failsAt_giveBack word inside different
            (by simpa using ne_of_startsStatement starts rfl)
  | .branch _ _ _, _, derivation, nearest, wants => by
      cases derivation with
      | @branch _ opening closing _ middle _ _ _ word opens condition closes inner =>
          simp only [Statement.wanted] at wants
          simp only [Statement.ElseNearest] at nearest
          obtain ⟨taken, rfl, again⟩ := condition.exists_taken
          have split : opening :: (taken ++ closing :: middle) =
              (opening :: (taken ++ [closing])) ++ middle := by
            simp
          rw [split]
          refine (needsSemicolon_of_derives inner nearest wants).at_end
            fun count following stuck enough fails => ?_
          simp only [List.cons_append, List.append_assoc, List.nil_append] at enough ⊢
          have inside := (readsExpressions_readWithin count).expression
            (again (closing :: following)) (Nat.le_of_succ_le enough)
            (Expression.Form.stops_of_mem (by simp [closes]))
          exact failsAt_branch word opens inside closes fails
  | .choice _ _ _ _, _, derivation, nearest, wants => by
      cases derivation with
      | @choice _ opening closing elseWord _ _ outerTokens _ _ _ _ word opens condition closes inner
          other outer =>
          simp only [Statement.wanted] at wants
          simp only [Statement.ElseNearest] at nearest
          obtain ⟨innerTaken, rfl, innerAgain⟩ := inner.exists_taken
          obtain ⟨taken, rfl, again⟩ := condition.exists_taken
          have split : opening :: (taken ++ closing :: (innerTaken ++ elseWord :: outerTokens)) =
              (opening :: (taken ++ closing :: (innerTaken ++ [elseWord]))) ++ outerTokens := by
            simp
          rw [split]
          refine (needsSemicolon_of_derives outer nearest.2.2 wants).at_end
            fun count following stuck enough fails => ?_
          simp only [List.cons_append, List.append_assoc, List.nil_append, List.length_cons,
            List.length_append] at enough ⊢
          have inside := (readsExpressions_readWithin count).expression
            (again (closing :: (innerTaken ++ elseWord :: following))) (by simp; omega)
            (Expression.Form.stops_of_mem (by simp [closes]))
          have consequence := readsStatements_readWithin count
            (innerAgain (elseWord :: following)) nearest.2.1 (by simp; omega)
            (fun isOpen => by simp [nearest.1] at isOpen)
          exact failsAt_choice word opens inside closes consequence other fails
  | .loop _ _ _, _, derivation, nearest, wants => by
      cases derivation with
      | @loop _ opening closing _ middle _ _ _ word opens condition closes inner =>
          simp only [Statement.wanted] at wants
          simp only [Statement.ElseNearest] at nearest
          obtain ⟨taken, rfl, again⟩ := condition.exists_taken
          have split : opening :: (taken ++ closing :: middle) =
              (opening :: (taken ++ [closing])) ++ middle := by
            simp
          rw [split]
          refine (needsSemicolon_of_derives inner nearest wants).at_end
            fun count following stuck enough fails => ?_
          simp only [List.cons_append, List.append_assoc, List.nil_append] at enough ⊢
          have inside := (readsExpressions_readWithin count).expression
            (again (closing :: following)) (Nat.le_of_succ_le enough)
            (Expression.Form.stops_of_mem (by simp [closes]))
          exact failsAt_loop word opens inside closes fails
  | .declaration _ _, _, derivation, _, _ => by cases derivation
  | .block _ _, _, _, _, wants => by simp [Statement.wanted] at wants
  | .function _ _ _ _, _, _, _, wants => by simp [Statement.wanted] at wants

/-- The tokens of a statement begin with no `let`, whatever stands in place of its last
semicolon. -/
theorem noLet_of_derives
    {front rest : List Token}
    {semicolon : Token}
    {tree : Statement}
    (derivation : Derives .statement (front ++ semicolon :: rest) rest tree)
    (ends : semicolon.kind = .semicolon)
    (following : List Token) :
    ∀ token ∈ (front ++ following).head?, token.kind ≠ Kind.keyword .letWord := by
  obtain ⟨first, others, equation, member | ⟨form, -⟩⟩ := derivation.opens rfl
  · cases front with
    | nil =>
        cases equation
        exact absurd (ends ▸ member) (by decide)
    | cons token front =>
        cases equation
        simp only [List.cons_append, List.head?_cons, Option.mem_some_iff, forall_eq']
        exact fun same => absurd (same ▸ member) (by decide)
  · cases form

/-- A declaration that wants something lacks it where its semicolon is missing. -/
theorem needsSemicolon_of_declaration
    {input rest : List Token}
    {tree : Statement}
    {cause : Cause}
    (derivation : Derives .declaration input rest tree)
    (nearest : tree.ElseNearest)
    (wants : tree.wanted = some cause) :
    NeedsSemicolon (fun count => attempt (Phrase.readWithin count)) input rest cause := by
  cases derivation with
  | @bare word name semicolon _ letWord named ends =>
      simp only [Statement.wanted, Option.some.injEq] at wants
      refine ⟨[word, name], semicolon, rfl, ends, fun count token others enough starts => ?_⟩
      intro ending arena faults
      rw [← wants]
      simp only [attempt, List.cons_append, List.nil_append]
      rw [bind_of_ok (accept_of_eq _ _ _ _ letWord)]
      exact failsAt_bareDeclaration named (by simpa using ne_of_startsStatement starts rfl)
        (by simpa using ne_of_startsStatement starts rfl) ending arena faults
  | @initialized word name equals semicolon _ _ _ letWord named equal value ends =>
      simp only [Statement.wanted, Option.some.injEq] at wants
      obtain ⟨taken, rfl, again⟩ := value.exists_taken
      refine ⟨word :: name :: equals :: taken, semicolon, rfl, ends,
        fun count token others enough starts => ?_⟩
      simp only [List.cons_append, List.length_cons] at enough
      have inside := (readsExpressions_readWithin count).expression (again (token :: others))
        (by omega) (stops_of_startsStatement starts others)
      intro ending arena faults
      rw [← wants]
      simp only [attempt, List.cons_append]
      rw [bind_of_ok (accept_of_eq _ _ _ _ letWord)]
      exact failsAt_initializedDeclaration named equal inside
        (by simpa using ne_of_startsStatement starts rfl) ending arena faults
  | plain derivation =>
      obtain ⟨front, semicolon, rfl, ends, fails⟩ :=
        needsSemicolon_of_derives derivation nearest wants
      refine ⟨front, semicolon, rfl, ends, fun count token others enough starts => ?_⟩
      intro ending arena faults
      have noLet := noLet_of_derives derivation ends (token :: others)
      simp only [attempt]
      rw [bind_of_ok (accept_of_ne _ _ _ noLet)]
      exact fails count token others enough starts ending arena faults

/-- A declaration that wants nothing ends with a brace. -/
theorem exists_brace_of_declaration
    {input rest : List Token}
    {tree : Statement}
    (derivation : Derives .declaration input rest tree)
    (nothing : tree.wanted = none) :
    ∃ brace : Token, brace.kind = .rightBrace ∧ brace :: rest <:+ input := by
  cases derivation with
  | bare => simp [Statement.wanted] at nothing
  | initialized => simp [Statement.wanted] at nothing
  | plain derivation => exact exists_brace_of_wanted_eq_none derivation nothing

/-- A declaration whose semicolon is missing in front of a keyword that opens a statement is
lost with one fault, which is at the keyword, and so is what stands before the place where
reading goes on. -/
theorem loses_of_declaration
    {front : List Token}
    {semicolon : Token}
    {tree : Statement}
    (derivation : Derives .declaration (front ++ [semicolon]) [] tree)
    (nearest : tree.ElseNearest)
    (ends : semicolon.kind = .semicolon) :
    ∃ cause, tree.wanted = some cause ∧
      ∀ opener others ending, opener.kind.startsStatement = true →
        Loses ⟨front ++ opener :: others, ending⟩ #[.atToken cause opener]
          (resume (opener :: others)) := by
  cases wants : tree.wanted with
  | none =>
      obtain ⟨brace, closes, before, equation⟩ := exists_brace_of_declaration derivation wants
      obtain ⟨-, same⟩ := List.append_inj' equation rfl
      cases same
      simp [ends] at closes
  | some cause =>
      obtain ⟨before, last, equation, -, fails⟩ :=
        needsSemicolon_of_declaration derivation nearest wants
      obtain ⟨rfl, -⟩ := List.append_inj' equation rfl
      refine ⟨cause, rfl, fun opener others ending starts count arena earlier enough => ?_⟩
      obtain ⟨later, after, failure⟩ :=
        fails count opener others enough starts ending arena earlier
      refine ⟨later, after, ?_⟩
      rw [declaration_eq_recovering, recovering_of_error failure]
      simp

/-! ## Programs -/

/-- Declarations that take tokens have a last one. -/
theorem exists_last_of_declarations
    {trees : List Statement}
    {input rest : List Token}
    (derivation : Derives .declarations input rest trees)
    (nonempty : trees ≠ []) :
    ∃ front last middle, trees = front ++ [last] ∧ Derives .declarations input middle front ∧
      Derives .declaration middle rest last := by
  induction trees generalizing input with
  | nil => exact absurd rfl nonempty
  | cons tree trees inductionHypothesis =>
      cases derivation with
      | next first others =>
          by_cases more : trees = []
          · subst more
            cases others with
            | done => exact ⟨[], tree, input, rfl, .done, first⟩
          · obtain ⟨front, last, middle, rfl, before, behind⟩ := inductionHypothesis others more
            exact ⟨tree :: front, last, middle, rfl, .next first before, behind⟩

/-- Behind the first of some tokens reading goes on at a last part of the others. -/
theorem resume_cons_suffix (token : Token) (others : List Token) :
    resume (token :: others) <:+ others := by
  cases others with
  | nil =>
      rw [resume]
      simp
  | cons next others =>
      rw [resume_cons_cons]
      split
      · exact List.suffix_refl _
      · split
        · exact List.suffix_refl _
        · exact resume_suffix _

/-- Where the last semicolon of a faultless program is missing and a keyword that opens a
statement stands in its place, the first fault is at that keyword, and says what the last
declaration of the program wanted there. This declaration is absent from the tree, and so is
the statement that the keyword opens: what is read next stands behind the keyword, and is
read, with its faults, as it is alone. -/
theorem readProgram_without_semicolon
    {front others : List Token}
    {semicolon opener beforeEnding ending : Token}
    (beforeClosed : beforeEnding.kind = .endOfInput)
    (closed : ending.kind = .endOfInput)
    (ends : semicolon.kind = .semicolon)
    (faultless : (readProgram ⟨front ++ [semicolon], beforeEnding⟩ .empty).faults = [])
    (starts : opener.kind.startsStatement = true)
    (arena : Arena) :
    let following := resume (opener :: others)
    let first := readProgram ⟨front ++ [semicolon], beforeEnding⟩ .empty
    let second := readProgram ⟨following, ending⟩ .empty
    let whole := readProgram ⟨front ++ opener :: others, ending⟩ arena
    following <:+ others ∧
      ∃ (statements : List Statement) (last : Statement) (cause : Cause)
        (laterTrees : List Rose) (ids laterIds : List (Option NodeId)),
        (programRose beforeEnding (statements ++ [last])).StandsAt first.arena
            (some first.root) ∧
          last.wanted = some cause ∧
          whole.faults = .atToken cause opener :: second.faults ∧
          (Rose.node .statements ending none laterTrees).StandsAt second.arena
            (some second.root) ∧
          whole.arena.get? whole.root =
            some ⟨.statements, ending, none, ids ++ none :: laterIds⟩ ∧
          Statement.AllAt statements whole.arena ids ∧
          Rose.AllStandAt whole.arena laterTrees laterIds := by
  intro following first second whole
  obtain ⟨anyTrees, anyDerivation⟩ := isStatement_of_faultless beforeClosed faultless
  obtain ⟨trees, derivation, nearest⟩ := anyDerivation.exists_elseNearest
  obtain ⟨-, -, firstStands⟩ := readProgram_of_derives _ derivation nearest .empty
  have nonempty : trees ≠ [] := by
    rintro rfl
    have shorter : ([] : List Token) = front ++ [semicolon] := by
      generalize front ++ [semicolon] = input at derivation
      cases derivation
      rfl
    simp at shorter
  obtain ⟨statements, last, middle, rfl, before, behind⟩ :=
    exists_last_of_declarations derivation nonempty
  obtain ⟨statementsNearest, lastNearest⟩ := (Statement.allElseNearest_append ..).mp nearest
  obtain ⟨taken, equation, again⟩ := before.exists_taken
  obtain rfl | ⟨inner, token, rfl⟩ := List.eq_nil_or_concat middle
  · simpa [Statement.Form.least] using behind.length_le
  · simp only [List.concat_eq_append, ← List.append_assoc] at equation behind
    obtain ⟨rfl, same⟩ := List.append_inj' equation rfl
    cases same
    have noElse : NoElse (inner ++ opener :: others) := by
      have noElseInside : NoElse (inner ++ [semicolon]) :=
        noElse_of_declarations (.next behind .done) (by simp [NoElse])
      cases inner with
      | nil => exact noElse_cons others (ne_of_startsStatement starts rfl)
      | cons token inner => exact noElseInside
    obtain ⟨cause, wants, loses⟩ :=
      loses_of_declaration behind ((Statement.allElseNearest_cons ..).mp lastNearest).1 ends
    obtain ⟨faults, laterTrees, ids, laterIds, laterStands, root, stand, laterStand⟩ :=
      readProgram_of_loses closed (again (inner ++ opener :: others)) statementsNearest noElse
        (by simp) (loses opener others ending starts) arena
    rw [← List.append_assoc] at faults root stand laterStand
    exact ⟨resume_cons_suffix opener others, statements, last, cause, laterTrees, ids, laterIds,
      firstStands, wants, faults, laterStands, root, stand, laterStand⟩

/-- A declaration without its semicolon in front of a statement that writes. -/
theorem readProgram_without_semicolon_of_echo :
    let declared := [.placeless (.keyword .letWord) "let", Token.placeless .identifier "a"]
    let semicolon := Token.placeless .semicolon ";"
    let word := Token.placeless (.keyword .echoWord) "echo"
    let written := [.placeless (.keyword .nullWord) "null", semicolon]
    let ending := Token.placeless .endOfInput ""
    (readProgram ⟨declared ++ [semicolon], ending⟩ .empty).faults = [] ∧
      word.kind.startsStatement = true ∧
      ∃ cause, (readProgram ⟨declared ++ word :: written, ending⟩ .empty).faults =
        [.atToken cause word] := by
  intro declared semicolon word written ending
  have faultless : (readProgram ⟨declared ++ [semicolon], ending⟩ .empty).faults = [] := by
    decide +kernel
  have nothing : (readProgram ⟨resume (word :: written), ending⟩ .empty).faults = [] := by
    decide +kernel
  have closed : ending.kind = .endOfInput := rfl
  obtain ⟨-, statements, last, cause, laterTrees, ids, laterIds, -, -, faults, -⟩ :=
    @readProgram_without_semicolon declared written semicolon word ending ending
      closed closed rfl faultless rfl .empty
  exact ⟨faultless, rfl, cause, by rw [faults, nothing]⟩

/-- What a keyword opens behind a missing semicolon is lost although it is faultless: all
that is left of two declarations is that one is absent. -/
theorem readProgram_loses_behind_missing_semicolon :
    let declared := [.placeless (.keyword .letWord) "let", Token.placeless .identifier "a"]
    let semicolon := Token.placeless .semicolon ";"
    let word := Token.placeless (.keyword .echoWord) "echo"
    let written := [.placeless (.keyword .nullWord) "null", semicolon]
    let ending := Token.placeless .endOfInput ""
    let second := readProgram ⟨word :: written, ending⟩ .empty
    let whole := readProgram ⟨declared ++ word :: written, ending⟩ .empty
    (readProgram ⟨declared ++ [semicolon], ending⟩ .empty).faults = [] ∧
      second.faults = [] ∧
      word.kind.startsStatement = true ∧
      second.arena.get? second.root = some ⟨.statements, ending, none, [some 1]⟩ ∧
      whole.arena.get? whole.root = some ⟨.statements, ending, none, [none]⟩ := by
  intro declared semicolon word written ending second whole
  have secondDeclarations :
      (readDeclarations ⟨word :: written, ending⟩ .empty).1 = [some 1] := by
    decide +kernel
  have wholeDeclarations :
      (readDeclarations ⟨declared ++ word :: written, ending⟩ .empty).1 = [none] := by
    decide +kernel
  refine ⟨by decide +kernel, by decide +kernel, rfl, ?_, ?_⟩
  · rw [get?_root rfl, secondDeclarations]
  · rw [get?_root rfl, wholeDeclarations]

end Tree
end Scripting
