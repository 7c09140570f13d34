import Scripting.Proofs.Reading.Faultless

/-!
# Every declaration takes a token

A statement that is read takes a token, and after a declaration that is lost reading
goes on behind at least one, so every round of the loop for declarations leaves fewer
tokens than it found (`declaration_shorter`), and the loop for a program comes to the
end of the input (`declarationsBefore_rest`).  So the root of a program is a list of its
declarations and stands for the end of the input (`get?_root`).

No phrase begins with a token that is no opener of it; in particular every phrase fails
at the end of the input (`readWithin_at_end`).
-/

namespace Scripting
namespace Tree

open Token (Kind)

/-- Whenever the work succeeds it has taken a token. -/
def Takes {α : Type} (work : Parse α) : Prop :=
  ∀ (cursor later : Cursor) (value : α), cursor.ending.kind = .endOfInput →
    work cursor = .ok value later → later.rest.length < cursor.rest.length

variable {α β : Type}

namespace Takes

theorem bind
    {work : Parse α}
    {next : α → Parse β}
    (takes : Takes work)
    (onward : ∀ value, GoesOnward (next value)) :
    Takes (work >>= next) := by
  intro cursor later value closed ends
  obtain ⟨middle, between, first, second⟩ := bind_eq_ok.mp ends
  have shorter := takes cursor between middle closed first
  exact Nat.lt_of_le_of_lt ((onward middle).after_ok second).rest.length_le shorter

theorem bind_of_onward
    {work : Parse α}
    {next : α → Parse β}
    (onward : GoesOnward work)
    (takes : ∀ value, Takes (next value)) :
    Takes (work >>= next) := by
  intro cursor later value closed ends
  obtain ⟨middle, between, first, second⟩ := bind_eq_ok.mp ends
  have after := onward.after_ok first
  have shorter := takes middle between later value (after.ending ▸ closed) second
  exact Nat.lt_of_lt_of_le shorter after.rest.length_le

end Takes

theorem takes_expect (kind : Kind) (message : String) : Takes (expect kind message) := by
  intro cursor later token closed ends
  obtain ⟨front, -⟩ := expect_eq_ok ends
  simp [front]

/-- Behind a token that is not the end of the input there is one token less. -/
theorem skip_shorter
    {next : Parse α}
    (onward : GoesOnward next)
    {cursor later : Cursor}
    {value : α}
    (closed : cursor.ending.kind = .endOfInput)
    (inside : cursor.current.kind ≠ .endOfInput)
    (ends : (skip >>= fun _ => next) cursor = .ok value later) :
    later.rest.length < cursor.rest.length := by
  obtain ⟨_, between, skipped, following⟩ := bind_eq_ok.mp ends
  obtain ⟨skippedRest, -⟩ := skip_eq_ok skipped
  have shorter := (onward.after_ok following).rest.length_le
  rw [skippedRest] at shorter
  rw [rest_eq closed inside, List.length_cons]
  omega

/-- An expression and its semicolon take a token. -/
theorem takes_discard
    {read : Phrase → Parse NodeId}
    (onward : ∀ phrase, GoesOnward (read phrase))
    (rounds : Nat) :
    Takes (do
      let value ← expression read rounds
      let semicolon ← expect .semicolon "expected ';' after expression"
      add .discard semicolon [some value]) :=
  .bind_of_onward (onward_expression onward rounds) fun _ =>
    (takes_expect _ _).bind fun _ => onward_add _ _ _

/-- Every statement that is read takes a token. -/
theorem takes_statement
    {read : Phrase → Parse NodeId}
    (onward : ∀ phrase, GoesOnward (read phrase))
    (rounds : Nat) :
    Takes (statement read rounds) := by
  intro cursor later id closed ends
  obtain ⟨token, between, peeked, afterPeek⟩ := bind_eq_ok.mp ends
  obtain ⟨rfl, rfl⟩ := peek_eq_ok peeked
  have inside : ∀ {kind : Kind}, between.current.kind = kind → kind ≠ .endOfInput →
      between.current.kind ≠ .endOfInput := by
    rintro kind rfl other
    exact other
  cases kind : between.current.kind with
  | leftBrace =>
      simp only [kind] at afterPeek
      refine skip_shorter ?_ closed (inside kind (by simp)) afterPeek
      exact .bind (onward_blockRest onward rounds) fun _ => onward_add _ _ _
  | keyword word =>
      cases word with
      | fnWord =>
          simp only [kind] at afterPeek
          exact skip_shorter (onward_functionDeclaration onward rounds) closed
            (inside kind (by simp)) afterPeek
      | echoWord =>
          simp only [kind] at afterPeek
          refine skip_shorter ?_ closed (inside kind (by simp)) afterPeek
          exact .bind (onward _) fun _ => .bind (onward_expect _ _) fun _ => onward_add _ _ _
      | ifWord =>
          simp only [kind] at afterPeek
          exact skip_shorter (onward_branch onward _) closed (inside kind (by simp)) afterPeek
      | whileWord =>
          simp only [kind] at afterPeek
          exact skip_shorter (onward_loop onward _) closed (inside kind (by simp)) afterPeek
      | returnWord =>
          simp only [kind] at afterPeek
          exact skip_shorter (onward_giveBack onward _) closed (inside kind (by simp)) afterPeek
      | _ =>
          simp only [kind] at afterPeek
          exact takes_discard onward rounds _ _ _ closed afterPeek
  | _ =>
      simp only [kind] at afterPeek
      exact takes_discard onward rounds _ _ _ closed afterPeek

theorem takes_readWithin (count : Nat) : Takes (Phrase.readWithin count .statement) := by
  intro cursor later id closed ends
  cases count with
  | zero => exact absurd ends (noExpression_ne_ok id)
  | succ count =>
      rw [readWithin_succ] at ends
      exact takes_statement (onward_readWithin count) (count + 1) _ _ _ closed ends

theorem resume_cons_cons (token next : Token) (others : List Token) :
    resume (token :: next :: others) =
      if token.kind = .semicolon then next :: others
      else if next.kind.startsStatement then next :: others
      else resume (next :: others) := by
  rw [resume]

/-- Reading goes on behind at least one of the tokens of a lost declaration. -/
theorem resume_shorter
    {tokens : List Token}
    (nonempty : tokens ≠ []) :
    (resume tokens).length < tokens.length := by
  fun_induction resume tokens with
  | case1 => exact absurd rfl nonempty
  | case2 token rest => exact Nat.lt_succ_self _
  | case3 token => exact Nat.zero_lt_succ _
  | case4 token next others => exact Nat.lt_succ_self _
  | case5 token next others _ _ inductionHypothesis =>
      exact Nat.lt_succ_of_lt (inductionHypothesis (List.cons_ne_nil _ _))

/-- A declaration whose failure is not yet caught. -/
def attempt (read : Phrase → Parse NodeId) : Parse NodeId := do
  match ← accept (.keyword .letWord) with
  | some _ => variableDeclaration read
  | none => read .statement

theorem declaration_eq_recovering (read : Phrase → Parse NodeId) :
    declaration read = recovering (attempt read) := rfl

section Declarations

variable
  {read : Phrase → Parse NodeId}
  (onward : ∀ phrase, GoesOnward (read phrase))
  (takes : Takes (read .statement))

include onward

theorem onward_attempt : GoesOnward (attempt read) := by
  refine .bind (onward_accept _) fun word => ?_
  cases word with
  | some _ => exact onward_variableDeclaration onward
  | none => exact onward _

include takes

theorem takes_attempt : Takes (attempt read) := by
  intro cursor later id closed ends
  obtain ⟨word, between, accepted, following⟩ := bind_eq_ok.mp ends
  cases word with
  | some word =>
      obtain ⟨front, -⟩ := accept_eq_some accepted
      have shorter := ((onward_variableDeclaration onward).after_ok following).rest.length_le
      rw [front, List.length_cons]
      omega
  | none =>
      obtain rfl := accept_eq_none accepted
      exact takes _ _ _ closed following

/-- A declaration that is read or lost leaves fewer tokens. -/
theorem declaration_shorter
    {cursor : Cursor}
    (closed : cursor.ending.kind = .endOfInput)
    (nonempty : cursor.rest ≠ []) :
    (declaration read cursor).2.rest.length < cursor.rest.length := by
  have after := onward_attempt onward cursor
  rw [declaration_eq_recovering, recovering]
  cases ends : attempt read cursor with
  | ok id later => exact takes_attempt onward takes _ _ _ closed ends
  | error fault later =>
      rw [ends] at after
      by_cases left : later.rest = []
      · simpa [left, resume] using List.length_pos_iff.mpr nonempty
      · exact Nat.lt_of_lt_of_le (resume_shorter left) after.rest.length_le

/-- With a round for every token the declarations of a program are read up to the end of
the input. -/
theorem declarationsBefore_rest
    {remaining : Nat}
    {cursor : Cursor}
    (closed : cursor.ending.kind = .endOfInput)
    (enough : cursor.rest.length ≤ remaining)
    (found : Array (Option NodeId)) :
    (declarationsBefore read none remaining found cursor).2.rest = [] := by
  induction remaining generalizing cursor found with
  | zero => exact List.eq_nil_of_length_eq_zero (Nat.le_zero.mp enough)
  | succ remaining inductionHypothesis =>
      cases front : cursor.rest with
      | nil => rwa [declarationsBefore_of_nil front]
      | cons token others =>
          have shorter := declaration_shorter onward takes closed (by simp [front])
          rw [declarationsBefore_succ front (by simp)]
          apply inductionHypothesis
          · rw [(onward_declaration onward cursor).ending, closed]
          · omega

end Declarations

/-! ## Tokens with which nothing begins -/

section NoOpener

variable {cursor : Cursor}

theorem peek_eq (cursor : Cursor) : peek cursor = .ok cursor.current cursor := rfl

section Expressions

variable
  (noOpener : cursor.current.kind ∉ Expression.Form.full.openers)
  (read : Phrase → Parse NodeId)
  (rounds : Nat)

include noOpener

theorem primary_of_not_opener :
    primary read rounds cursor = noExpression cursor := by
  have spelled : constantOf? cursor.current = none := by
    unfold constantOf?
    split <;> simp_all [Expression.Form.openers, Expression.simpleOpeners]
  rw [primary, bind_of_ok (peek_eq cursor)]
  simp only [spelled]
  cases kind : cursor.current.kind with
  | identifier => exact absurd kind.symm (ne_of_mem_of_not_mem (by decide) noOpener)
  | leftParen => exact absurd kind.symm (ne_of_mem_of_not_mem (by decide) noOpener)
  | leftBracket => exact absurd kind.symm (ne_of_mem_of_not_mem (by decide) noOpener)
  | _ => rfl

theorem unary_of_not_opener :
    unary read rounds cursor = noExpression cursor := by
  have refused : acceptAny [.bang, .minus] cursor = .ok none cursor := by
    obtain ⟨rest, ending, arena, faults⟩ := cursor
    refine acceptAny_of_not_mem ending arena faults fun token head sign => noOpener ?_
    obtain ⟨others, rfl⟩ := List.head?_eq_some_iff.mp head
    simp only [List.mem_cons, List.not_mem_nil, or_false] at sign
    rcases sign with sign | sign <;>
      simp [Cursor.current, sign, Expression.Form.openers]
  rw [unary, bind_of_ok refused]
  exact bind_of_error (primary_of_not_opener noOpener read rounds)

theorem binary_of_not_opener (levels : List Level) :
    binary read rounds levels cursor = noExpression cursor := by
  induction levels with
  | nil => exact unary_of_not_opener noOpener read rounds
  | cons level tighter inductionHypothesis => exact bind_of_error inductionHypothesis

theorem expression_of_not_opener :
    expression read rounds cursor = noExpression cursor :=
  bind_of_error (binary_of_not_opener noOpener read rounds levels)

end Expressions

theorem statement_of_not_opener
    (noOpener : cursor.current.kind ∉ Statement.opens)
    (read : Phrase → Parse NodeId)
    (rounds : Nat) :
    statement read rounds cursor = noExpression cursor := by
  have fails : expression read rounds cursor = noExpression cursor :=
    expression_of_not_opener (fun member => noOpener (List.mem_append_right _ member)) read rounds
  rw [statement, bind_of_ok (peek_eq cursor)]
  cases kind : cursor.current.kind with
  | leftBrace => exact absurd kind.symm (ne_of_mem_of_not_mem (by decide) noOpener)
  | keyword word =>
      cases word with
      | fnWord => exact absurd kind.symm (ne_of_mem_of_not_mem (by decide) noOpener)
      | echoWord => exact absurd kind.symm (ne_of_mem_of_not_mem (by decide) noOpener)
      | ifWord => exact absurd kind.symm (ne_of_mem_of_not_mem (by decide) noOpener)
      | whileWord => exact absurd kind.symm (ne_of_mem_of_not_mem (by decide) noOpener)
      | returnWord => exact absurd kind.symm (ne_of_mem_of_not_mem (by decide) noOpener)
      | _ => exact bind_of_error fails
  | _ => exact bind_of_error fails

/-- Where no expression begins none is read. -/
theorem readWithin_expression_of_not_opener
    (noOpener : cursor.current.kind ∉ Expression.Form.full.openers)
    (count : Nat) :
    Phrase.readWithin count .expression cursor = noExpression cursor := by
  cases count with
  | zero => rfl
  | succ count =>
      rw [readWithin_succ]
      exact expression_of_not_opener noOpener _ _

/-- At the end of the input every phrase fails. -/
theorem readWithin_at_end
    (closed : cursor.ending.kind = .endOfInput)
    (nothing : cursor.rest = [])
    (count : Nat)
    (phrase : Phrase) :
    phrase.readWithin count cursor = noExpression cursor := by
  have kind : cursor.current.kind = .endOfInput := by
    simp [Cursor.current, nothing, closed]
  have noOpener : cursor.current.kind ∉ Statement.opens := by
    rw [kind]
    decide
  have noExpressionOpener : cursor.current.kind ∉ Expression.Form.full.openers :=
    fun member => noOpener (List.mem_append_right _ member)
  cases count with
  | zero => rfl
  | succ count =>
      rw [readWithin_succ]
      cases phrase with
      | statement => exact statement_of_not_opener noOpener _ _
      | expression => exact expression_of_not_opener noExpressionOpener _ _
      | unary => exact unary_of_not_opener noExpressionOpener _ _

end NoOpener

/-! ## Programs -/

/-- The declarations of a program, and the cursor behind them. -/
def readDeclarations (tokens : Token.Sequence) (arena : Arena) : List (Option NodeId) × Cursor :=
  declarationsBefore (Phrase.readWithin (levelsFor tokens.body.length)) none
    (levelsFor tokens.body.length) #[] ⟨tokens.body, tokens.ending, arena, #[]⟩

section Programs

variable
  {tokens : Token.Sequence}
  (closed : tokens.ending.kind = .endOfInput)
  (arena : Arena)

theorem onward_readDeclarations :
    Cursor.Onward ⟨tokens.body, tokens.ending, arena, #[]⟩ (readDeclarations tokens arena).2 :=
  onward_declarationsBefore (onward_readWithin _) none _ #[] _

/-- Reading a program adds at least its root. -/
theorem size_lt_readProgram : arena.size < (readProgram tokens arena).arena.size := by
  have before : arena.size ≤ (readDeclarations tokens arena).2.arena.size :=
    Arena.size_le_of_le (onward_readDeclarations arena).arena
  change arena.size < ((readDeclarations tokens arena).2.arena.add _).size
  rw [Arena.size_add]
  omega

include closed

theorem readDeclarations_rest : (readDeclarations tokens arena).2.rest = [] :=
  declarationsBefore_rest (onward_readWithin _) (takes_readWithin _) closed
    (le_levelsFor tokens.body.length) #[]

/-- Behind the last declaration stands the end of the input. -/
theorem readDeclarations_current : (readDeclarations tokens arena).2.current = tokens.ending := by
  rw [Cursor.current, readDeclarations_rest closed arena, List.headD_nil,
    (onward_readDeclarations arena).ending]

/-- The token of the root is the end of the input. -/
theorem readProgram_eq :
    readProgram tokens arena =
      { root := (readDeclarations tokens arena).2.arena.nextId
        arena := (readDeclarations tokens arena).2.arena.add
          ⟨.statements, tokens.ending, none, (readDeclarations tokens arena).1⟩
        faults := (readDeclarations tokens arena).2.faults.toList } := by
  rw [← readDeclarations_current closed arena]
  rfl

/-- The children of the root are the declarations. -/
theorem get?_root :
    (readProgram tokens arena).arena.get? (readProgram tokens arena).root =
      some ⟨.statements, tokens.ending, none, (readDeclarations tokens arena).1⟩ := by
  rw [readProgram_eq closed arena]
  exact Arena.get?_add_nextId _ _

end Programs

end Tree
end Scripting
