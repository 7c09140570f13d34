import Scripting.Proofs.Reading.Advance

/-!
# Clauses

A clause is a sequence of tokens whose only semicolon comes last and in which no brace is
opened.  No expression takes a semicolon, so the declaration at the beginning of a clause
is either all of it or fails before the semicolon is taken, and what it records on the way
is only about the targets of assignments.

Main statement: `endsClause_attempt_readWithin`.
-/

namespace Scripting

/-- Whether a cause is that something else was expected. -/
def Cause.isExpectation : Cause → Bool
  | expected _ | expectedExpression => true
  | _ => false

namespace Tree

open Token (Kind)

/-- The last token is a semicolon, and no other one is a semicolon or opens a brace. -/
inductive IsClause : List Token → Prop
  | last
      {semicolon : Token}
      (ends : semicolon.kind = .semicolon) :
      IsClause [semicolon]
  | before
      {token : Token}
      {rest : List Token}
      (inside : token.kind ≠ .semicolon)
      (noBrace : token.kind ≠ .leftBrace)
      (clause : IsClause rest) :
      IsClause (token :: rest)

namespace IsClause

theorem ne_nil
    {tokens : List Token}
    (clause : IsClause tokens) :
    tokens ≠ [] := by
  cases clause <;> exact List.cons_ne_nil _ _

/-- Only its last token is a semicolon. -/
theorem tail
    {token : Token}
    {rest : List Token}
    (clause : IsClause (token :: rest))
    (inside : token.kind ≠ .semicolon) :
    IsClause rest := by
  cases clause with
  | last ends => exact absurd ends inside
  | before _ _ clause => exact clause

theorem tail_eq_nil
    {token : Token}
    {rest : List Token}
    (clause : IsClause (token :: rest))
    (ends : token.kind = .semicolon) :
    rest = [] := by
  cases clause with
  | last => rfl
  | before inside => exact absurd ends inside

theorem head_ne_leftBrace
    {token : Token}
    {rest : List Token}
    (clause : IsClause (token :: rest)) :
    token.kind ≠ .leftBrace := by
  cases clause with
  | last ends => simp [ends]
  | before _ noBrace => exact noBrace

end IsClause

/-- The faults recorded between two cursors are about the targets of assignments. -/
def OnlyTargets (earlier later : Cursor) : Prop :=
  ∃ new : List Fault, later.faults.toList = earlier.faults.toList ++ new ∧
    ∀ fault ∈ new, fault.cause = .invalidAssignmentTarget

namespace OnlyTargets

theorem of_eq
    {earlier later : Cursor}
    (same : later.faults = earlier.faults) :
    OnlyTargets earlier later :=
  ⟨[], by simp [same]⟩

theorem trans
    {first second third : Cursor}
    (earlier : OnlyTargets first second)
    (later : OnlyTargets second third) :
    OnlyTargets first third := by
  obtain ⟨new, equation, targets⟩ := earlier
  obtain ⟨newer, laterEquation, laterTargets⟩ := later
  refine ⟨new ++ newer, by rw [laterEquation, equation, List.append_assoc], ?_⟩
  intro fault member
  obtain member | member := List.mem_append.mp member
  · exact targets fault member
  · exact laterTargets fault member

end OnlyTargets

/-- In a clause the second cursor is still before the semicolon when the first one is. -/
structure Cursor.Along (earlier later : Cursor) : Prop where
  clause : IsClause earlier.rest → IsClause later.rest
  targets : OnlyTargets earlier later

namespace Cursor.Along

theorem refl (cursor : Cursor) : cursor.Along cursor :=
  ⟨id, .of_eq rfl⟩

theorem trans
    {first second third : Cursor}
    (earlier : first.Along second)
    (later : second.Along third) :
    first.Along third :=
  ⟨later.clause ∘ earlier.clause, earlier.targets.trans later.targets⟩

end Cursor.Along

variable {α β : Type}

/-! ## Work inside a clause -/

/-- What work ends with that has not taken the semicolon of a clause; when it has failed,
something else was expected. -/
def Cursor.StillInClause (cursor : Cursor) : EStateM.Result Fault Cursor α → Prop
  | .ok _ later => cursor.Along later
  | .error fault later => cursor.Along later ∧ fault.cause.isExpectation = true

/-- However the work ends, it has not taken the semicolon of a clause. -/
def StaysInClause (work : Parse α) (cursor : Cursor) : Prop :=
  cursor.StillInClause (work cursor)

namespace StaysInClause

theorem of_ok
    {work : Parse α}
    {cursor later : Cursor}
    {value : α}
    (ends : work cursor = .ok value later)
    (along : cursor.Along later) :
    StaysInClause work cursor := by
  rw [StaysInClause, ends]
  exact along

theorem pure (value : α) (cursor : Cursor) : StaysInClause (Pure.pure value) cursor :=
  Cursor.Along.refl cursor

theorem throw
    {fault : Fault}
    (expectation : fault.cause.isExpectation = true)
    (cursor : Cursor) :
    StaysInClause (MonadExcept.throw fault : Parse α) cursor :=
  ⟨.refl cursor, expectation⟩

theorem bind
    {work : Parse α}
    {next : α → Parse β}
    {cursor : Cursor}
    (first : StaysInClause work cursor)
    (second : ∀ value later, StaysInClause (next value) later) :
    StaysInClause (work >>= next) cursor := by
  unfold StaysInClause at first ⊢
  cases ends : work cursor with
  | ok value between =>
      rw [ends] at first
      rw [bind_of_ok ends]
      have after := second value between
      unfold StaysInClause at after
      cases nextEnds : next value between with
      | ok result later =>
          rw [nextEnds] at after
          exact first.trans after
      | error fault later =>
          rw [nextEnds] at after
          exact ⟨first.trans after.1, after.2⟩
  | error fault between =>
      rw [ends] at first
      rw [bind_of_error ends]
      exact first

theorem map
    {work : Parse α}
    {cursor : Cursor}
    (stays : StaysInClause work cursor)
    (change : α → β) :
    StaysInClause (change <$> work) cursor :=
  stays.bind fun value => .pure (change value)

/-- Looking at the next token tells what it is. -/
theorem peek_bind
    {next : Token → Parse α}
    {cursor : Cursor}
    (stays : StaysInClause (next cursor.current) cursor) :
    StaysInClause (peek >>= next) cursor :=
  stays

end StaysInClause

/-- Moving past a token that is no semicolon stays in the clause. -/
theorem along_skip
    {cursor : Cursor}
    (inside : cursor.current.kind ≠ .semicolon) :
    cursor.Along { cursor with rest := cursor.rest.tail } := by
  refine ⟨fun clause => ?_, .of_eq rfl⟩
  obtain ⟨rest, ending, arena, faults⟩ := cursor
  cases rest with
  | nil => exact absurd rfl clause.ne_nil
  | cons token rest => exact clause.tail inside

theorem stays_skip_bind
    {next : Parse α}
    {cursor : Cursor}
    (inside : cursor.current.kind ≠ .semicolon)
    (following : ∀ later, StaysInClause next later) :
    StaysInClause (skip >>= fun _ => next) cursor :=
  .bind (.of_ok rfl (along_skip inside)) fun _ => following

theorem stays_acceptAny
    {wanted : List Kind}
    (inside : Kind.semicolon ∉ wanted)
    (cursor : Cursor) :
    StaysInClause (acceptAny wanted) cursor := by
  obtain ⟨rest, ending, arena, faults⟩ := cursor
  cases rest with
  | nil => exact .of_ok rfl (.refl _)
  | cons token rest =>
      by_cases member : token.kind ∈ wanted
      · refine .of_ok (acceptAny_of_mem rest ending arena faults member)
          ⟨fun clause => ?_, .of_eq rfl⟩
        exact clause.tail fun same => inside (same ▸ member)
      · exact .of_ok (acceptAny_of_not_mem ending arena faults (by simpa using member)) (.refl _)

theorem stays_accept
    {kind : Kind}
    (inside : kind ≠ .semicolon)
    (cursor : Cursor) :
    StaysInClause (accept kind) cursor :=
  stays_acceptAny (by simpa using inside.symm) cursor

theorem stays_check (kind : Kind) (cursor : Cursor) : StaysInClause (check kind) cursor :=
  .of_ok rfl (.refl cursor)

theorem stays_noExpression (cursor : Cursor) : StaysInClause (noExpression : Parse α) cursor :=
  .peek_bind (.throw rfl cursor)

theorem stays_expect
    {kind : Kind}
    (inside : kind ≠ .semicolon)
    (message : String)
    (cursor : Cursor) :
    StaysInClause (expect kind message) cursor := by
  refine (stays_accept inside cursor).bind fun found later => ?_
  cases found with
  | some token => exact .pure token later
  | none => exact .peek_bind (.throw rfl later)

theorem stays_addNode (node : Node) (cursor : Cursor) : StaysInClause (addNode node) cursor :=
  .of_ok rfl ⟨id, .of_eq rfl⟩

theorem stays_add
    (kind : NodeKind)
    (token : Token)
    (children : List (Option NodeId))
    (cursor : Cursor) :
    StaysInClause (add kind token children) cursor :=
  stays_addNode _ cursor

theorem stays_record
    {fault : Fault}
    (target : fault.cause = .invalidAssignmentTarget)
    (cursor : Cursor) :
    StaysInClause (record fault) cursor :=
  .of_ok rfl ⟨id, [fault], by simp, by simpa using target⟩

theorem stays_separated
    {item : Parse NodeId}
    (stays : ∀ cursor, StaysInClause item cursor)
    (rounds : Nat)
    (found : Array (Option NodeId))
    (cursor : Cursor) :
    StaysInClause (separated item rounds found) cursor := by
  induction rounds generalizing found cursor with
  | zero => exact .pure found cursor
  | succ rounds inductionHypothesis =>
      refine (stays cursor).bind fun id between =>
        (stays_accept (by simp) between).bind fun comma later => ?_
      cases comma with
      | some _ => exact inductionHypothesis _ later
      | none => exact .pure _ later

theorem stays_itemsBefore
    {item : Parse NodeId}
    (stays : ∀ cursor, StaysInClause item cursor)
    (closing : Kind)
    (rounds : Nat)
    (cursor : Cursor) :
    StaysInClause (itemsBefore closing item rounds) cursor := by
  refine (stays_check closing cursor).bind fun closes later => ?_
  cases closes with
  | true => exact .pure [] later
  | false => exact (stays_separated stays rounds #[] later).bind fun all => .pure all.toList

section Expressions

variable {read : Phrase → Parse NodeId}
  (stays : ∀ phrase, phrase ≠ .statement → ∀ cursor, StaysInClause (read phrase) cursor)
  (rounds : Nat)

include stays

theorem stays_primary (cursor : Cursor) : StaysInClause (primary read rounds) cursor := by
  have inside := stays .expression (by simp)
  apply StaysInClause.peek_bind
  cases spelled : constantOf? cursor.current with
  | some constant =>
      refine stays_skip_bind (fun ends => ?_) fun later => stays_addNode _ later
      simp [constantOf?, ends] at spelled
  | none =>
      cases kind : cursor.current.kind with
      | identifier => exact stays_skip_bind (by simp [kind]) fun later => stays_add _ _ _ later
      | leftParen =>
          exact stays_skip_bind (by simp [kind]) fun first => (inside first).bind fun _ second =>
            (stays_expect (by simp) _ second).bind fun _ => stays_add _ _ _
      | leftBracket =>
          exact stays_skip_bind (by simp [kind]) fun first =>
            (stays_itemsBefore inside _ _ first).bind fun _ second =>
            (stays_expect (by simp) _ second).bind fun _ => stays_add _ _ _
      | _ => exact stays_noExpression cursor

theorem stays_applications (remaining : Nat) (target : NodeId) (cursor : Cursor) :
    StaysInClause (applications read rounds remaining target) cursor := by
  have inside := stays .expression (by simp)
  induction remaining generalizing target cursor with
  | zero => exact .pure target cursor
  | succ remaining inductionHypothesis =>
      refine (stays_accept (by simp) cursor).bind fun opening first => ?_
      cases opening with
      | some _ =>
          exact (stays_itemsBefore inside _ _ first).bind fun _ second =>
            (stays_expect (by simp) _ second).bind fun _ third =>
            (stays_add _ _ _ third).bind inductionHypothesis
      | none =>
          refine (stays_accept (by simp) first).bind fun bracket second => ?_
          cases bracket with
          | some _ =>
              exact (inside second).bind fun _ third =>
                (stays_expect (by simp) _ third).bind fun _ fourth =>
                (stays_add _ _ _ fourth).bind inductionHypothesis
          | none => exact .pure target second

theorem stays_unary (cursor : Cursor) : StaysInClause (unary read rounds) cursor := by
  refine (stays_acceptAny (by simp) cursor).bind fun operator first => ?_
  cases operator with
  | some _ => exact (stays .unary (by simp) first).bind fun _ => stays_add _ _ _
  | none =>
      exact (stays_primary stays rounds first).bind fun target =>
        stays_applications stays rounds rounds target

omit stays in
theorem stays_chain
    {level : Level}
    (inside : Kind.semicolon ∉ level.operators)
    {operand : Parse NodeId}
    (operandStays : ∀ cursor, StaysInClause operand cursor)
    (remaining : Nat)
    (left : NodeId)
    (cursor : Cursor) :
    StaysInClause (chain level operand remaining left) cursor := by
  induction remaining generalizing left cursor with
  | zero => exact .pure left cursor
  | succ remaining inductionHypothesis =>
      refine (stays_acceptAny inside cursor).bind fun operator first => ?_
      cases operator with
      | some _ =>
          exact (operandStays first).bind fun _ second =>
            (stays_add _ _ _ second).bind inductionHypothesis
      | none => exact .pure left first

theorem stays_binary
    {levels : List Level}
    (inside : ∀ level ∈ levels, Kind.semicolon ∉ level.operators)
    (cursor : Cursor) :
    StaysInClause (binary read rounds levels) cursor := by
  induction levels generalizing cursor with
  | nil => exact stays_unary stays rounds cursor
  | cons level tighter inductionHypothesis =>
      have tighterStays := inductionHypothesis fun other member =>
        inside other (List.mem_cons_of_mem level member)
      exact (tighterStays cursor).bind fun left =>
        stays_chain (inside level List.mem_cons_self) tighterStays rounds left

/-- The only fault that an expression records without failing is about the target of an
assignment. -/
theorem stays_expression (cursor : Cursor) : StaysInClause (expression read rounds) cursor := by
  refine (stays_binary stays rounds (by decide) cursor).bind fun target first =>
    (stays_accept (by simp) first).bind fun equals second => ?_
  cases equals with
  | none => exact .pure target second
  | some equals =>
      refine (stays .expression (by simp) second).bind fun value third =>
        .bind (.of_ok rfl (.refl third)) fun cursor fourth => ?_
      split
      · exact stays_add _ _ _ fourth
      · exact (stays_record rfl fourth).bind fun _ => .pure target

end Expressions

theorem stays_readWithin
    (count : Nat)
    {phrase : Phrase}
    (inside : phrase ≠ .statement)
    (cursor : Cursor) :
    StaysInClause (phrase.readWithin count) cursor := by
  induction count generalizing phrase cursor with
  | zero => exact stays_noExpression cursor
  | succ count inductionHypothesis =>
      have same := readWithin_succ count phrase
      have rule : StaysInClause (phrase.rule (Phrase.readWithin count) (count + 1)) cursor := by
        cases phrase with
        | statement => exact absurd rfl inside
        | expression =>
            exact stays_expression (fun phrase => inductionHypothesis) (count + 1) cursor
        | unary => exact stays_unary (fun phrase => inductionHypothesis) (count + 1) cursor
      rw [show phrase.readWithin (count + 1) = _ from funext same]
      exact rule

/-! ## Work up to the end of a clause -/

/-- What work ends with that was begun in a clause and has either taken all of it or failed
before the semicolon was taken, since something else was expected. -/
def Cursor.ClauseEnds (cursor : Cursor) : EStateM.Result Fault Cursor α → Prop
  | .ok _ later => later.rest = [] ∧ OnlyTargets cursor later
  | .error fault later =>
      IsClause later.rest ∧ OnlyTargets cursor later ∧ fault.cause.isExpectation = true

/-- In a clause the work either takes all of it or fails before its semicolon is taken. -/
def EndsClause (work : Parse α) (cursor : Cursor) : Prop :=
  IsClause cursor.rest → cursor.ClauseEnds (work cursor)

namespace EndsClause

theorem after
    {work : Parse α}
    {next : α → Parse β}
    {cursor : Cursor}
    (stays : StaysInClause work cursor)
    (following : ∀ value later, EndsClause (next value) later) :
    EndsClause (work >>= next) cursor := by
  intro clause
  unfold StaysInClause at stays
  cases ends : work cursor with
  | ok value between =>
      rw [ends] at stays
      rw [bind_of_ok ends]
      have clauseEnds := following value between (stays.clause clause)
      cases nextEnds : next value between with
      | ok result later =>
          rw [nextEnds] at clauseEnds
          obtain ⟨nothing, targets⟩ := clauseEnds
          exact ⟨nothing, stays.targets.trans targets⟩
      | error fault later =>
          rw [nextEnds] at clauseEnds
          obtain ⟨stillClause, targets, expected⟩ := clauseEnds
          exact ⟨stillClause, stays.targets.trans targets, expected⟩
  | error fault between =>
      rw [ends] at stays
      obtain ⟨along, expected⟩ := stays
      rw [bind_of_error ends]
      exact ⟨along.clause clause, along.targets, expected⟩

/-- What comes after the end of the clause cannot fail. -/
theorem bind
    {work : Parse α}
    {next : α → Parse β}
    {cursor : Cursor}
    (ends : EndsClause work cursor)
    (following : ∀ value later, later.rest = [] → ∃ result last,
      next value later = .ok result last ∧ last.rest = [] ∧ last.faults = later.faults) :
    EndsClause (work >>= next) cursor := by
  intro clause
  have clauseEnds := ends clause
  cases equation : work cursor with
  | ok value between =>
      rw [equation] at clauseEnds
      obtain ⟨nothing, targets⟩ := clauseEnds
      obtain ⟨result, last, nextEquation, lastNothing, faults⟩ := following value between nothing
      rw [bind_of_ok equation, nextEquation]
      exact ⟨lastNothing, targets.trans (.of_eq faults)⟩
  | error fault between =>
      rw [equation] at clauseEnds
      rw [bind_of_error equation]
      exact clauseEnds

theorem noExpression (cursor : Cursor) : EndsClause (noExpression : Parse α) cursor :=
  fun clause => ⟨clause, .of_eq rfl, rfl⟩

/-- Looking at the next token tells what it is. -/
theorem peek_bind
    {next : Token → Parse α}
    {cursor : Cursor}
    (ends : EndsClause (next cursor.current) cursor) :
    EndsClause (peek >>= next) cursor :=
  ends

theorem skip_bind
    {next : Parse α}
    {cursor : Cursor}
    (inside : cursor.current.kind ≠ .semicolon)
    (following : ∀ later, EndsClause next later) :
    EndsClause (skip >>= fun _ => next) cursor :=
  .after (.of_ok rfl (along_skip inside)) fun _ => following

end EndsClause

/-- The semicolon that a statement ends with is the end of the clause. -/
theorem endsClause_semicolon
    (message : String)
    (node : Token → Node)
    (cursor : Cursor) :
    EndsClause (expect .semicolon message >>= fun token => addNode (node token)) cursor := by
  intro clause
  obtain ⟨rest, ending, arena, faults⟩ := cursor
  cases rest with
  | nil => exact absurd rfl clause.ne_nil
  | cons token rest =>
      by_cases isSemicolon : token.kind = .semicolon
      · rw [bind_of_ok (expect_of_eq rest ending arena faults message isSemicolon)]
        exact ⟨clause.tail_eq_nil isSemicolon, .of_eq rfl⟩
      · rw [bind_of_error (expect_of_ne ending arena faults message (by simpa using isSemicolon))]
        exact ⟨clause, .of_eq rfl, rfl⟩

/-- No brace opens in a clause. -/
theorem endsClause_leftBrace
    (message : String)
    (next : Token → Parse α)
    (cursor : Cursor) :
    EndsClause (expect .leftBrace message >>= next) cursor := by
  intro clause
  obtain ⟨rest, ending, arena, faults⟩ := cursor
  have noBrace : ∀ token ∈ rest.head?, token.kind ≠ .leftBrace := by
    intro token head
    obtain ⟨others, rfl⟩ := List.head?_eq_some_iff.mp head
    exact clause.head_ne_leftBrace
  rw [bind_of_error (expect_of_ne ending arena faults message noBrace)]
  exact ⟨clause, .of_eq rfl, rfl⟩

section Statements

variable {read : Phrase → Parse NodeId}
  (stays : ∀ phrase, phrase ≠ .statement → ∀ cursor, StaysInClause (read phrase) cursor)
  (ends : ∀ cursor, EndsClause (read .statement) cursor)
  (rounds : Nat)

include stays

theorem endsClause_variableDeclaration (cursor : Cursor) :
    EndsClause (variableDeclaration read) cursor := by
  refine .after (stays_expect (by simp) _ cursor) fun name first =>
    .after (stays_accept (by simp) first) fun equals second => ?_
  cases equals with
  | some _ =>
      exact .after ((stays .expression (by simp) second).map some) fun initializer =>
        endsClause_semicolon _ _
  | none => exact .after (.pure none second) fun initializer => endsClause_semicolon _ _

omit stays in
/-- The body of a function is in braces, so its declaration cannot be a clause. -/
theorem endsClause_functionDeclaration (cursor : Cursor) :
    EndsClause (functionDeclaration read rounds) cursor := by
  have parameterStays : ∀ cursor, StaysInClause parameter cursor := fun cursor =>
    (stays_expect (by simp) _ cursor).bind fun _ => stays_add _ _ _
  exact .after (stays_expect (by simp) _ cursor) fun _ first =>
    .after (stays_expect (by simp) _ first) fun _ second =>
    .after (stays_itemsBefore parameterStays _ _ second) fun _ third =>
    .after (stays_expect (by simp) _ third) fun _ => endsClause_leftBrace _ _

theorem endsClause_giveBack (keyword : Token) (cursor : Cursor) :
    EndsClause (giveBack read keyword) cursor := by
  refine .after (stays_check _ cursor) fun empty first => ?_
  cases empty with
  | true => exact .after (.pure none first) fun value => endsClause_semicolon _ _
  | false =>
      exact .after ((stays .expression (by simp) first).map some) fun value =>
        endsClause_semicolon _ _

include ends

/-- The consequence of a branch ends the clause, so there is no alternative. -/
theorem endsClause_branch (keyword : Token) (cursor : Cursor) :
    EndsClause (branch read keyword) cursor := by
  refine .after (stays_expect (by simp) _ cursor) fun _ first =>
    .after (stays .expression (by simp) first) fun condition second =>
    .after (stays_expect (by simp) _ second) fun _ third =>
    (ends third).bind fun consequence later nothing => ?_
  obtain ⟨rest, ending, arena, faults⟩ := later
  obtain rfl : rest = [] := nothing
  exact ⟨_, _, rfl, rfl, rfl⟩

theorem endsClause_loop (keyword : Token) (cursor : Cursor) :
    EndsClause (loop read keyword) cursor :=
  .after (stays_expect (by simp) _ cursor) fun _ first =>
    .after (stays .expression (by simp) first) fun condition second =>
    .after (stays_expect (by simp) _ second) fun _ third =>
    (ends third).bind fun body later nothing => ⟨_, _, rfl, nothing, rfl⟩

theorem endsClause_statement (cursor : Cursor) : EndsClause (statement read rounds) cursor := by
  intro clause
  have noBrace : cursor.current.kind ≠ .leftBrace := by
    obtain ⟨token, others, front⟩ := List.exists_cons_of_ne_nil clause.ne_nil
    rw [front] at clause
    simpa [Cursor.current, front] using clause.head_ne_leftBrace
  revert clause
  apply EndsClause.peek_bind
  split
  next kind =>
      exact .skip_bind (by simp [kind]) fun later => endsClause_functionDeclaration rounds later
  next kind =>
      exact .skip_bind (by simp [kind]) fun later =>
        .after (stays .expression (by simp) later) fun value => endsClause_semicolon _ _
  next kind => exact .skip_bind (by simp [kind]) (endsClause_branch stays ends _)
  next kind => exact .skip_bind (by simp [kind]) (endsClause_loop stays ends _)
  next kind => exact .skip_bind (by simp [kind]) (endsClause_giveBack stays _)
  next kind => exact absurd kind noBrace
  next =>
      exact .after (stays_expression stays rounds cursor) fun value => endsClause_semicolon _ _

theorem endsClause_attempt (cursor : Cursor) : EndsClause (attempt read) cursor := by
  refine .after (stays_accept (by simp) cursor) fun word later => ?_
  cases word with
  | some _ => exact endsClause_variableDeclaration stays later
  | none => exact ends later

end Statements

theorem endsClause_readWithin (count : Nat) (cursor : Cursor) :
    EndsClause (Phrase.readWithin count .statement) cursor := by
  induction count generalizing cursor with
  | zero => exact .noExpression cursor
  | succ count inductionHypothesis =>
      have rule := endsClause_statement (fun phrase => stays_readWithin count) inductionHypothesis
        (count + 1) cursor
      rw [show Phrase.readWithin (count + 1) .statement = _ from
        funext (readWithin_succ count .statement)]
      exact rule

/-- A declaration of a clause is all of it or fails before its semicolon is taken. -/
theorem endsClause_attempt_readWithin (count : Nat) (cursor : Cursor) :
    EndsClause (attempt (Phrase.readWithin count)) cursor :=
  endsClause_attempt (fun _ => stays_readWithin count) (endsClause_readWithin count) cursor

end Tree
end Scripting
