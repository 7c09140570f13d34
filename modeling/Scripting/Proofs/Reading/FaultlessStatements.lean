import Scripting.Proofs.Reading.Faultless

/-!
# Statements that are read without a fault

A statement or a declaration whose reading succeeds and records no fault is one of
the grammar.  A declaration that fails is recorded, so declarations of which none
is recorded were all read.

Main statements: `findsStatements_readWithin` for statements and
`declarationsBefore_faultless` for declarations.
-/

namespace Scripting
namespace Tree

open Token (Kind)
open Statement (Form Derives Names Parameters)

/-- The tokens of the first list before the second are a phrase of a form. -/
def IsStatement (form : Form) (input rest : List Token) : Prop :=
  ∃ tree, Derives form input rest tree

theorem IsStatement.length_lt
    {form : Form}
    {input rest : List Token}
    (phrase : IsStatement form input rest)
    (nonempty : form.least = 1) :
    rest.length < input.length := by
  obtain ⟨tree, derivation⟩ := phrase
  have shorter := derivation.length_le
  omega

variable {read : Phrase → Parse NodeId} {rounds count : Nat}

/-- The readers take expressions and statements. -/
structure FindsStatements (read : Phrase → Parse NodeId) (count : Nat) : Prop
    extends FindsExpressions read count where
  statement : Finds (read .statement) count (IsStatement .statement)

/-! ## Declarations -/

theorem variableDeclaration_faultless
    (finds : FindsExpressions read count)
    {word : Token}
    (letWord : word.kind = .keyword .letWord) :
    Finds (variableDeclaration read) count fun input rest =>
      IsStatement .declaration (word :: input) rest := by
  intro cursor later id closed bound ends faultless
  obtain ⟨name, first, expected, afterName⟩ := bind_eq_ok.mp ends
  obtain ⟨front, named, nameEnding, nameFaults⟩ := expect_eq_ok expected
  obtain ⟨equals, second, accepted, afterEquals⟩ := bind_eq_ok.mp afterName
  cases equals with
  | none =>
      obtain rfl := accept_eq_none accepted
      simp only [pure_bind] at afterEquals
      obtain ⟨semicolon, third, expectedEnd, added⟩ := bind_eq_ok.mp afterEquals
      obtain ⟨middle, isSemicolon, -, -⟩ := expect_eq_ok expectedEnd
      obtain ⟨addedRest, -, -⟩ := add_eq_ok added
      rw [front, middle, addedRest]
      exact ⟨_, .bare letWord named isSemicolon⟩
  | some equals =>
      obtain ⟨equalsFront, equal, equalsEnding, equalsFaults⟩ := accept_eq_some accepted
      simp only [map_eq_bind, bind_assoc, pure_bind] at afterEquals
      obtain ⟨value, third, valueEnds, afterValue⟩ := bind_eq_ok.mp afterEquals
      obtain ⟨semicolon, fourth, expectedEnd, added⟩ := bind_eq_ok.mp afterValue
      obtain ⟨middle, isSemicolon, -, endFaults⟩ := expect_eq_ok expectedEnd
      obtain ⟨addedRest, -, addedFaults⟩ := add_eq_ok added
      rw [front, equalsFront, List.length_cons, List.length_cons] at bound
      obtain ⟨tree, inside⟩ := finds.expression _ _ _ (by rw [equalsEnding, nameEnding, closed])
        (by omega) valueEnds (by omega)
      rw [middle, ← addedRest] at inside
      rw [front, equalsFront]
      exact ⟨_, .initialized letWord named equal inside isSemicolon⟩

/-- What is lost is recorded. -/
theorem recovering_eq
    {work : Parse NodeId}
    {cursor later : Cursor}
    {id : Option NodeId}
    (onward : GoesOnward work)
    (equation : recovering work cursor = (id, later))
    (faultless : later.faults.size ≤ cursor.faults.size) :
    ∃ found, work cursor = .ok found later := by
  unfold recovering at equation
  split at equation
  next found after ends =>
      obtain ⟨-, rfl⟩ := Prod.mk.inj equation
      exact ⟨found, ends⟩
  next fault after ends =>
      obtain ⟨-, rfl⟩ := Prod.mk.inj equation
      have more := onward cursor
      rw [ends] at more
      have before : cursor.faults.size ≤ after.faults.size := more.faults_size_le
      simp only [Array.size_push] at faultless
      omega

theorem declaration_faultless
    (finds : FindsStatements read count)
    {cursor later : Cursor}
    {id : Option NodeId}
    (closed : cursor.ending.kind = .endOfInput)
    (bound : cursor.rest.length ≤ count)
    (equation : declaration read cursor = (id, later))
    (faultless : later.faults.size ≤ cursor.faults.size) :
    IsStatement .declaration cursor.rest later.rest := by
  have unrecovered := fun onward => recovering_eq onward equation faultless
  obtain ⟨found, ends⟩ := unrecovered (by
    refine .bind (onward_accept _) fun word => ?_
    cases word with
    | some _ => exact onward_variableDeclaration finds.onward
    | none => exact finds.onward _)
  obtain ⟨word, first, accepted, afterWord⟩ := bind_eq_ok.mp ends
  cases word with
  | some word =>
      obtain ⟨front, letWord, ending, faults⟩ := accept_eq_some accepted
      rw [front, List.length_cons] at bound
      rw [front]
      exact variableDeclaration_faultless finds.toFindsExpressions letWord _ _ _ (ending ▸ closed)
        (by omega) afterWord (by omega)
  | none =>
      obtain rfl := accept_eq_none accepted
      obtain ⟨tree, derivation⟩ := finds.statement _ _ _ closed bound afterWord faultless
      exact ⟨tree, .plain derivation⟩

/-- Declarations that are read without a fault are ones of the grammar, and end at the
end of the input or at the token that closes them. -/
theorem declarationsBefore_faultless
    (finds : FindsStatements read count)
    {closing : Option Kind}
    {remaining : Nat}
    {found : Array (Option NodeId)}
    {ids : List (Option NodeId)}
    {cursor later : Cursor}
    (closed : cursor.ending.kind = .endOfInput)
    (bound : cursor.rest.length ≤ count)
    (enough : cursor.rest.length ≤ remaining)
    (equation : declarationsBefore read closing remaining found cursor = (ids, later))
    (faultless : later.faults.size ≤ cursor.faults.size) :
    IsStatement .declarations cursor.rest later.rest ∧
      ∀ token ∈ later.rest.head?, some token.kind = closing := by
  induction remaining generalizing found cursor with
  | zero =>
      obtain ⟨-, rfl⟩ := Prod.mk.inj equation
      have empty : cursor.rest = [] := List.length_eq_zero_iff.mp (by omega)
      exact ⟨⟨[], .done⟩, by simp [empty]⟩
  | succ remaining inductionHypothesis =>
      rw [declarationsBefore] at equation
      cases front : cursor.rest with
      | nil =>
          simp only [front] at equation
          obtain ⟨-, rfl⟩ := Prod.mk.inj equation
          rw [front]
          exact ⟨⟨[], .done⟩, by simp⟩
      | cons token rest =>
          by_cases closes : some token.kind = closing
          · simp only [front, closes, if_true] at equation
            obtain ⟨-, rfl⟩ := Prod.mk.inj equation
            rw [front]
            exact ⟨⟨[], .done⟩, by simpa using closes⟩
          · cases declared : declaration read cursor with
            | mk id middle =>
                simp only [front, closes, if_false, declared] at equation
                have firstOnward := onward_declaration finds.onward cursor
                rw [declared] at firstOnward
                have othersOnward :=
                  onward_declarationsBefore finds.onward closing remaining (found.push id) middle
                rw [equation] at othersOnward
                have firstFaults : cursor.faults.size ≤ middle.faults.size :=
                  firstOnward.faults_size_le
                have othersFaults : middle.faults.size ≤ later.faults.size :=
                  othersOnward.faults_size_le
                have first := declaration_faultless finds closed bound declared (by omega)
                have shorter := first.length_lt rfl
                obtain ⟨tree, derivation⟩ := first
                obtain ⟨⟨trees, others⟩, stop⟩ := inductionHypothesis
                  (firstOnward.ending ▸ closed) (by omega) (by omega) equation (by omega)
                rw [← front]
                exact ⟨⟨tree :: trees, .next derivation others⟩, stop⟩

theorem blockRest_faultless
    (finds : FindsStatements read count)
    (enough : count ≤ rounds) :
    Finds (blockRest read rounds) count fun input rest =>
      ∃ closing, closing.kind = .rightBrace ∧
        IsStatement .declarations input (closing :: rest) := by
  intro cursor later ids closed bound ends faultless
  obtain ⟨found, first, declarations, afterAll⟩ := bind_eq_ok.mp ends
  obtain ⟨brace, second, expected, returned⟩ := bind_eq_ok.mp afterAll
  obtain ⟨front, isBrace, ending, faults⟩ := expect_eq_ok expected
  obtain ⟨-, rfl⟩ := pure_eq_ok.mp returned
  cases equation : declarationsBefore read (some .rightBrace) rounds #[] cursor with
  | mk ids middle =>
      simp only [unfailing, equation, EStateM.Result.ok.injEq] at declarations
      obtain ⟨rfl, rfl⟩ := declarations
      obtain ⟨inside, -⟩ :=
        declarationsBefore_faultless finds closed bound (by omega) equation (by omega)
      rw [front] at inside
      exact ⟨brace, isBrace, inside⟩

/-! ## Statements -/

theorem parameter_faultless :
    Finds parameter count fun input rest =>
      ∃ name : Token, input = name :: rest ∧ name.kind = .identifier := by
  intro cursor later id closed bound ends faultless
  obtain ⟨name, first, expected, added⟩ := bind_eq_ok.mp ends
  obtain ⟨front, named, -, -⟩ := expect_eq_ok expected
  obtain ⟨addedRest, -, -⟩ := add_eq_ok added
  exact ⟨name, by rw [front, addedRest], named⟩

theorem parameters_faultless
    (enough : count < rounds)
    (closing : Kind) :
    Finds (itemsBefore closing parameter rounds) count fun input rest =>
      ∃ names, Parameters input rest names := by
  have listed : ∀ {input rest : List Token},
      (∃ names, Names input rest names) → ∃ names, Parameters input rest names := by
    rintro input rest ⟨names, derivation⟩
    exact ⟨names, .listed derivation⟩
  refine itemsBefore_faultless onward_parameter parameter_faultless ?_ ?_ ?_
    (fun _ => ⟨[], .nothing⟩) listed enough closing
  · rintro input rest ⟨name, rfl, -⟩
    simp
  · rintro input rest ⟨name, rfl, named⟩
    exact ⟨[name], .last named⟩
  · rintro input comma middle rest ⟨name, rfl, named⟩ kind ⟨names, others⟩
    exact ⟨name :: names, .more named kind others⟩

theorem functionDeclaration_faultless
    (finds : FindsStatements read count)
    (enough : count < rounds)
    {word : Token}
    (fnWord : word.kind = .keyword .fnWord) :
    Finds (functionDeclaration read rounds) count fun input rest =>
      IsStatement .statement (word :: input) rest := by
  intro cursor later id closed bound ends faultless
  obtain ⟨name, first, expectedName, afterName⟩ := bind_eq_ok.mp ends
  obtain ⟨nameFront, named, nameEnding, nameFaults⟩ := expect_eq_ok expectedName
  obtain ⟨opening, second, expectedOpening, afterOpening⟩ := bind_eq_ok.mp afterName
  obtain ⟨openingFront, opens, openingEnding, openingFaults⟩ := expect_eq_ok expectedOpening
  obtain ⟨parameters, third, parametersEnd, afterParameters⟩ := bind_eq_ok.mp afterOpening
  obtain ⟨paren, fourth, expectedParen, afterParen⟩ := bind_eq_ok.mp afterParameters
  obtain ⟨parenFront, closes, parenEnding, parenFaults⟩ := expect_eq_ok expectedParen
  obtain ⟨brace, fifth, expectedBrace, afterBrace⟩ := bind_eq_ok.mp afterParen
  obtain ⟨braceFront, braced, braceEnding, braceFaults⟩ := expect_eq_ok expectedBrace
  obtain ⟨found, sixth, bodyEnds, afterBody⟩ := bind_eq_ok.mp afterBrace
  obtain ⟨body, seventh, addedBody, added⟩ := bind_eq_ok.mp afterBody
  obtain ⟨bodyRest, -, bodyFaults⟩ := add_eq_ok addedBody
  obtain ⟨addedRest, -, addedFaults⟩ := add_eq_ok added
  have parametersOnward := (onward_itemsBefore onward_parameter _ _).after_ok parametersEnd
  have parametersFaults := parametersOnward.faults_size_le
  have shorter := parametersOnward.rest.length_le
  have insideFaults := ((onward_blockRest finds.onward rounds).after_ok bodyEnds).faults_size_le
  rw [nameFront, openingFront, List.length_cons, List.length_cons] at bound
  rw [parenFront, braceFront, List.length_cons, List.length_cons] at shorter
  obtain ⟨names, derivation⟩ := parameters_faultless enough _ _ _ _
    (by rw [openingEnding, nameEnding, closed]) (by omega) parametersEnd (by omega)
  obtain ⟨ending, isBrace, trees, inside⟩ := blockRest_faultless finds (Nat.le_of_lt enough) _ _ _
    (by rw [braceEnding, parenEnding, parametersOnward.ending, openingEnding, nameEnding, closed])
    (by omega) bodyEnds (by omega)
  rw [parenFront, braceFront] at derivation
  rw [← bodyRest, ← addedRest] at inside
  rw [nameFront, openingFront]
  exact ⟨_, .function fnWord named opens derivation closes braced inside isBrace⟩

theorem branch_faultless
    (finds : FindsStatements read count)
    {word : Token}
    (ifWord : word.kind = .keyword .ifWord) :
    Finds (branch read word) count fun input rest =>
      IsStatement .statement (word :: input) rest := by
  intro cursor later id closed bound ends faultless
  obtain ⟨opening, first, expectedOpening, afterOpening⟩ := bind_eq_ok.mp ends
  obtain ⟨openingFront, opens, openingEnding, openingFaults⟩ := expect_eq_ok expectedOpening
  obtain ⟨condition, second, conditionEnds, afterCondition⟩ := bind_eq_ok.mp afterOpening
  obtain ⟨paren, third, expectedParen, afterParen⟩ := bind_eq_ok.mp afterCondition
  obtain ⟨parenFront, closes, parenEnding, parenFaults⟩ := expect_eq_ok expectedParen
  obtain ⟨consequence, fourth, consequenceEnds, afterConsequence⟩ := bind_eq_ok.mp afterParen
  obtain ⟨other, fifth, accepted, afterOther⟩ := bind_eq_ok.mp afterConsequence
  have conditionOnward := (finds.onward _).after_ok conditionEnds
  have conditionFaults := conditionOnward.faults_size_le
  have conditionShorter := conditionOnward.rest.length_le
  have consequenceOnward := (finds.onward _).after_ok consequenceEnds
  have consequenceFaults := consequenceOnward.faults_size_le
  have consequenceShorter := consequenceOnward.rest.length_le
  have consequenceClosed : third.ending.kind = .endOfInput := by
    rw [parenEnding, conditionOnward.ending, openingEnding, closed]
  rw [openingFront, List.length_cons] at bound
  rw [parenFront, List.length_cons] at conditionShorter
  cases other with
  | none =>
      obtain rfl := accept_eq_none accepted
      simp only [pure_bind] at afterOther
      obtain ⟨addedRest, -, addedFaults⟩ := add_eq_ok afterOther
      obtain ⟨tree, inside⟩ := finds.expression _ _ _ (openingEnding ▸ closed) (by omega)
        conditionEnds (by omega)
      obtain ⟨innerTree, inner⟩ := finds.statement _ _ _ consequenceClosed (by omega)
        consequenceEnds (by omega)
      rw [parenFront] at inside
      rw [← addedRest] at inner
      rw [openingFront]
      exact ⟨_, .branch ifWord opens inside closes inner⟩
  | some other =>
      obtain ⟨otherFront, elseWord, otherEnding, otherFaults⟩ := accept_eq_some accepted
      simp only [map_eq_bind, bind_assoc, pure_bind] at afterOther
      obtain ⟨alternative, sixth, alternativeEnds, added⟩ := bind_eq_ok.mp afterOther
      obtain ⟨addedRest, -, addedFaults⟩ := add_eq_ok added
      have alternativeFaults := ((finds.onward _).after_ok alternativeEnds).faults_size_le
      rw [otherFront, List.length_cons] at consequenceShorter
      obtain ⟨tree, inside⟩ := finds.expression _ _ _ (openingEnding ▸ closed) (by omega)
        conditionEnds (by omega)
      obtain ⟨innerTree, inner⟩ := finds.statement _ _ _ consequenceClosed (by omega)
        consequenceEnds (by omega)
      obtain ⟨outerTree, outer⟩ := finds.statement _ _ _
        (by rw [otherEnding, consequenceOnward.ending, consequenceClosed]) (by omega)
        alternativeEnds (by omega)
      rw [parenFront] at inside
      rw [otherFront] at inner
      rw [← addedRest] at outer
      rw [openingFront]
      exact ⟨_, .choice ifWord opens inside closes inner elseWord outer⟩

theorem loop_faultless
    (finds : FindsStatements read count)
    {word : Token}
    (whileWord : word.kind = .keyword .whileWord) :
    Finds (loop read word) count fun input rest =>
      IsStatement .statement (word :: input) rest := by
  intro cursor later id closed bound ends faultless
  obtain ⟨opening, first, expectedOpening, afterOpening⟩ := bind_eq_ok.mp ends
  obtain ⟨openingFront, opens, openingEnding, openingFaults⟩ := expect_eq_ok expectedOpening
  obtain ⟨condition, second, conditionEnds, afterCondition⟩ := bind_eq_ok.mp afterOpening
  obtain ⟨paren, third, expectedParen, afterParen⟩ := bind_eq_ok.mp afterCondition
  obtain ⟨parenFront, closes, parenEnding, parenFaults⟩ := expect_eq_ok expectedParen
  obtain ⟨body, fourth, bodyEnds, added⟩ := bind_eq_ok.mp afterParen
  obtain ⟨addedRest, -, addedFaults⟩ := add_eq_ok added
  have conditionOnward := (finds.onward _).after_ok conditionEnds
  have conditionFaults := conditionOnward.faults_size_le
  have shorter := conditionOnward.rest.length_le
  have bodyFaults := ((finds.onward _).after_ok bodyEnds).faults_size_le
  rw [openingFront, List.length_cons] at bound
  rw [parenFront, List.length_cons] at shorter
  obtain ⟨tree, inside⟩ := finds.expression _ _ _ (openingEnding ▸ closed) (by omega)
    conditionEnds (by omega)
  obtain ⟨innerTree, inner⟩ := finds.statement _ _ _
    (by rw [parenEnding, conditionOnward.ending, openingEnding, closed]) (by omega)
    bodyEnds (by omega)
  rw [parenFront] at inside
  rw [← addedRest] at inner
  rw [openingFront]
  exact ⟨_, .loop whileWord opens inside closes inner⟩

theorem giveBack_faultless
    (finds : FindsStatements read count)
    {word : Token}
    (returnWord : word.kind = .keyword .returnWord) :
    Finds (giveBack read word) count fun input rest =>
      IsStatement .statement (word :: input) rest := by
  intro cursor later id closed bound ends faultless
  obtain ⟨empty, first, checked, afterCheck⟩ := bind_eq_ok.mp ends
  obtain rfl := check_eq_ok checked
  cases empty with
  | true =>
      simp only [if_true, pure_bind] at afterCheck
      obtain ⟨semicolon, second, expected, added⟩ := bind_eq_ok.mp afterCheck
      obtain ⟨front, isSemicolon, -, -⟩ := expect_eq_ok expected
      obtain ⟨addedRest, -, -⟩ := add_eq_ok added
      rw [front, addedRest]
      exact ⟨_, .giveNothing returnWord isSemicolon⟩
  | false =>
      simp only [Bool.false_eq_true, if_false, map_eq_bind, bind_assoc, pure_bind] at afterCheck
      obtain ⟨value, second, valueEnds, afterValue⟩ := bind_eq_ok.mp afterCheck
      obtain ⟨semicolon, third, expected, added⟩ := bind_eq_ok.mp afterValue
      obtain ⟨front, isSemicolon, -, endFaults⟩ := expect_eq_ok expected
      obtain ⟨addedRest, -, addedFaults⟩ := add_eq_ok added
      obtain ⟨tree, inside⟩ := finds.expression _ _ _ closed bound valueEnds (by omega)
      rw [front, ← addedRest] at inside
      exact ⟨_, .giveBack returnWord inside isSemicolon⟩

/-- What is read by a reader of the rest of a statement is a statement. -/
theorem skip_faultless
    {following : Parse NodeId}
    {cursor later : Cursor}
    {id : NodeId}
    (closed : cursor.ending.kind = .endOfInput)
    (different : cursor.current.kind ≠ .endOfInput)
    (finds : Finds following count fun input rest =>
      IsStatement .statement (cursor.current :: input) rest)
    (bound : cursor.rest.length ≤ count + 1)
    (ends : (skip >>= fun _ => following) cursor = .ok id later)
    (faultless : later.faults.size ≤ cursor.faults.size) :
    IsStatement .statement cursor.rest later.rest := by
  obtain ⟨_, first, skipped, afterSkip⟩ := bind_eq_ok.mp ends
  obtain ⟨skippedRest, skippedEnding, skippedFaults⟩ := skip_eq_ok skipped
  have front := rest_eq closed different
  rw [← skippedRest] at front
  rw [front, List.length_cons] at bound
  rw [front]
  exact finds _ _ _ (skippedEnding ▸ closed) (by omega) afterSkip (by omega)

theorem echo_faultless
    (finds : FindsStatements read count)
    {word : Token}
    (echoWord : word.kind = .keyword .echoWord) :
    Finds (do
        let value ← read .expression
        let _ ← expect .semicolon "expected ';' after value"
        add .echo word [some value]) count fun input rest =>
      IsStatement .statement (word :: input) rest := by
  intro cursor later id closed bound ends faultless
  obtain ⟨value, first, valueEnds, afterValue⟩ := bind_eq_ok.mp ends
  obtain ⟨semicolon, second, expected, added⟩ := bind_eq_ok.mp afterValue
  obtain ⟨front, isSemicolon, -, endFaults⟩ := expect_eq_ok expected
  obtain ⟨addedRest, -, addedFaults⟩ := add_eq_ok added
  obtain ⟨tree, inside⟩ := finds.expression _ _ _ closed bound valueEnds (by omega)
  rw [front, ← addedRest] at inside
  exact ⟨_, .echo echoWord inside isSemicolon⟩

theorem block_faultless
    (finds : FindsStatements read count)
    (enough : count ≤ rounds)
    {brace : Token}
    (opens : brace.kind = .leftBrace) :
    Finds (do
        let found ← blockRest read rounds
        add .block brace found) count fun input rest =>
      IsStatement .statement (brace :: input) rest := by
  intro cursor later id closed bound ends faultless
  obtain ⟨found, first, bodyEnds, added⟩ := bind_eq_ok.mp ends
  obtain ⟨addedRest, -, addedFaults⟩ := add_eq_ok added
  obtain ⟨closing, isBrace, trees, inside⟩ :=
    blockRest_faultless finds enough _ _ _ closed bound bodyEnds (by omega)
  rw [← addedRest] at inside
  exact ⟨_, .block opens inside isBrace⟩

theorem discard_faultless
    (finds : FindsStatements read count)
    (reads : ReadsExpressions read count)
    (enough : count < rounds) :
    Finds (do
        let value ← expression read rounds
        let semicolon ← expect .semicolon "expected ';' after expression"
        add .discard semicolon [some value]) (count + 1) (IsStatement .statement) := by
  intro cursor later id closed bound ends faultless
  obtain ⟨value, first, valueEnds, afterValue⟩ := bind_eq_ok.mp ends
  obtain ⟨semicolon, second, expected, added⟩ := bind_eq_ok.mp afterValue
  obtain ⟨front, isSemicolon, -, endFaults⟩ := expect_eq_ok expected
  obtain ⟨addedRest, -, addedFaults⟩ := add_eq_ok added
  obtain ⟨tree, inside⟩ := expression_faultless finds.toFindsExpressions reads enough _ _ _ closed
    bound valueEnds (by omega)
  rw [front, ← addedRest] at inside
  exact ⟨_, .discard inside isSemicolon⟩

theorem statement_faultless
    (finds : FindsStatements read count)
    (reads : ReadsExpressions read count)
    (enough : count < rounds) :
    Finds (statement read rounds) (count + 1) (IsStatement .statement) := by
  intro cursor later id closed bound ends faultless
  obtain ⟨token, between, peeked, afterPeek⟩ := bind_eq_ok.mp ends
  obtain ⟨rfl, rfl⟩ := peek_eq_ok peeked
  have different : ∀ {kind : Kind}, between.current.kind = kind → kind ≠ .endOfInput →
      between.current.kind ≠ .endOfInput := by
    rintro kind rfl other
    exact other
  cases kind : between.current.kind with
  | leftBrace =>
      simp only [kind] at afterPeek
      exact skip_faultless closed (different kind (by simp))
        (block_faultless finds (Nat.le_of_lt enough) kind) bound afterPeek faultless
  | keyword word =>
      cases word with
      | fnWord =>
          simp only [kind] at afterPeek
          exact skip_faultless closed (different kind (by simp))
            (functionDeclaration_faultless finds enough kind) bound afterPeek faultless
      | echoWord =>
          simp only [kind] at afterPeek
          exact skip_faultless closed (different kind (by simp)) (echo_faultless finds kind) bound
            afterPeek faultless
      | ifWord =>
          simp only [kind] at afterPeek
          exact skip_faultless closed (different kind (by simp)) (branch_faultless finds kind) bound
            afterPeek faultless
      | whileWord =>
          simp only [kind] at afterPeek
          exact skip_faultless closed (different kind (by simp)) (loop_faultless finds kind) bound
            afterPeek faultless
      | returnWord =>
          simp only [kind] at afterPeek
          exact skip_faultless closed (different kind (by simp)) (giveBack_faultless finds kind)
            bound afterPeek faultless
      | _ =>
          simp only [kind] at afterPeek
          exact discard_faultless finds reads enough _ _ _ closed bound afterPeek faultless
  | _ =>
      simp only [kind] at afterPeek
      exact discard_faultless finds reads enough _ _ _ closed bound afterPeek faultless

/-- Within any number of levels only statements are read without a fault. -/
theorem findsStatements_readWithin (count : Nat) :
    FindsStatements (Phrase.readWithin count) count := by
  induction count with
  | zero =>
      refine ⟨findsExpressions_readWithin 0, ?_⟩
      intro cursor later id closed bound ends
      exact absurd ends (noExpression_ne_ok id)
  | succ count inductionHypothesis =>
      refine ⟨findsExpressions_readWithin (count + 1), ?_⟩
      intro cursor later id closed bound ends
      rw [readWithin_succ] at ends
      exact statement_faultless inductionHypothesis (readsExpressions_readWithin count)
        (Nat.lt_succ_self count) _ _ _ closed bound ends

end Tree
end Scripting
