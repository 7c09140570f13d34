import Scripting.Proofs.Reading.Moves

/-!
# Reading only goes on

However reading ends, the cursor it leaves comes after the one it began with: what
is left is a last part of what was left, the nodes and the faults of before are the
first ones of now, and the end of the input is the same.

Main statements: `onward_readWithin` for phrases, `onward_declarationsBefore` for
declarations.
-/

namespace Scripting
namespace Tree

open Token (Kind)

/-- The second cursor comes after the first one in the course of reading. -/
structure Cursor.Onward (earlier later : Cursor) : Prop where
  rest : later.rest <:+ earlier.rest
  ending : later.ending = earlier.ending
  arena : earlier.arena ≤ later.arena
  faults : earlier.faults.toList <+: later.faults.toList

namespace Cursor.Onward

theorem refl (cursor : Cursor) : cursor.Onward cursor :=
  ⟨List.suffix_refl _, rfl, Arena.le_refl _, List.prefix_refl _⟩

theorem trans
    {first second third : Cursor}
    (earlier : first.Onward second)
    (later : second.Onward third) :
    first.Onward third where
  rest := later.rest.trans earlier.rest
  ending := later.ending.trans earlier.ending
  arena := Arena.le_trans earlier.arena later.arena
  faults := earlier.faults.trans later.faults

theorem faults_size_le
    {earlier later : Cursor}
    (onward : earlier.Onward later) :
    earlier.faults.size ≤ later.faults.size := by
  simpa using onward.faults.length_le

end Cursor.Onward

variable {α β : Type}

/-- The cursor that a reading leaves, whether or not it succeeds. -/
def cursorAfter : EStateM.Result Fault Cursor α → Cursor
  | .ok _ cursor => cursor
  | .error _ cursor => cursor

/-- The work leaves a later cursor, whether or not it succeeds. -/
def GoesOnward (work : Parse α) : Prop :=
  ∀ cursor : Cursor, cursor.Onward (cursorAfter (work cursor))

namespace GoesOnward

theorem pure (value : α) : GoesOnward (Pure.pure value) :=
  fun cursor => .refl cursor

theorem throw (fault : Fault) : GoesOnward (MonadExcept.throw fault : Parse α) :=
  fun cursor => .refl cursor

theorem bind
    {work : Parse α}
    {next : α → Parse β}
    (first : GoesOnward work)
    (second : ∀ value, GoesOnward (next value)) :
    GoesOnward (work >>= next) := by
  intro cursor
  have before := first cursor
  simp only [Bind.bind, EStateM.bind]
  cases equation : work cursor with
  | ok value between =>
      rw [equation] at before
      exact before.trans (second value between)
  | error fault between =>
      rw [equation] at before
      exact before

theorem map
    {work : Parse α}
    (onward : GoesOnward work)
    (change : α → β) :
    GoesOnward (change <$> work) :=
  onward.bind fun value => .pure (change value)

theorem after_ok
    {work : Parse α}
    {cursor later : Cursor}
    {value : α}
    (onward : GoesOnward work)
    (ends : work cursor = .ok value later) :
    cursor.Onward later := by
  have after := onward cursor
  rwa [ends] at after

end GoesOnward

theorem onward_peek : GoesOnward peek :=
  fun cursor => .refl cursor

theorem onward_check (kind : Kind) : GoesOnward (check kind) :=
  fun cursor => .refl cursor

theorem onward_get : GoesOnward (get : Parse Cursor) :=
  fun cursor => .refl cursor

theorem onward_skip : GoesOnward skip :=
  fun _ => ⟨List.tail_suffix _, rfl, Arena.le_refl _, List.prefix_refl _⟩

theorem onward_acceptAny (wanted : List Kind) : GoesOnward (acceptAny wanted) := by
  rintro ⟨rest, ending, arena, faults⟩
  cases rest with
  | nil => exact .refl _
  | cons token rest =>
      unfold acceptAny
      by_cases member : token.kind ∈ wanted
      · simp only [member, if_true]
        exact ⟨List.suffix_cons token rest, rfl, Arena.le_refl _, List.prefix_refl _⟩
      · simp only [member, if_false]
        exact .refl _

theorem onward_accept (kind : Kind) : GoesOnward (accept kind) :=
  onward_acceptAny [kind]

theorem onward_expect (kind : Kind) (message : String) : GoesOnward (expect kind message) := by
  refine .bind (onward_accept kind) fun found => ?_
  cases found with
  | some token => exact .pure token
  | none => exact .bind onward_peek fun token => .throw _

theorem onward_noExpression : GoesOnward (noExpression : Parse α) :=
  .bind onward_peek fun _ => .throw _

theorem onward_addNode (node : Node) : GoesOnward (addNode node) :=
  fun cursor => ⟨List.suffix_refl _, rfl, cursor.arena.le_add node, List.prefix_refl _⟩

theorem onward_add (kind : NodeKind) (token : Token) (children : List (Option NodeId)) :
    GoesOnward (add kind token children) :=
  onward_addNode _

theorem onward_record (fault : Fault) : GoesOnward (record fault) :=
  fun cursor => ⟨List.suffix_refl _, rfl, Arena.le_refl _, by
    change cursor.faults.toList <+: (cursor.faults.push fault).toList
    simp⟩

/-- Reading goes on at a last part of what is left. -/
theorem resume_suffix (tokens : List Token) : resume tokens <:+ tokens := by
  fun_induction resume tokens with
  | case1 => exact List.suffix_refl _
  | case2 token rest => exact List.suffix_cons token rest
  | case3 token => exact List.nil_suffix
  | case4 token next others => exact List.suffix_cons token _
  | case5 token next others _ _ inductionHypothesis =>
      exact inductionHypothesis.trans (List.suffix_cons token _)

theorem onward_recovering
    {work : Parse NodeId}
    (onward : GoesOnward work)
    (cursor : Cursor) :
    cursor.Onward (recovering work cursor).2 := by
  have after := onward cursor
  unfold recovering
  cases equation : work cursor with
  | ok id later =>
      rw [equation] at after
      exact after
  | error fault later =>
      rw [equation] at after
      refine after.trans ⟨resume_suffix _, rfl, Arena.le_refl _, ?_⟩
      change later.faults.toList <+: (later.faults.push fault).toList
      simp

theorem onward_separated
    {item : Parse NodeId}
    (onward : GoesOnward item)
    (rounds : Nat)
    (found : Array (Option NodeId)) :
    GoesOnward (separated item rounds found) := by
  induction rounds generalizing found with
  | zero => exact .pure found
  | succ rounds inductionHypothesis =>
      refine onward.bind fun id => .bind (onward_accept .comma) fun comma => ?_
      cases comma with
      | some _ => exact inductionHypothesis _
      | none => exact .pure _

theorem onward_itemsBefore
    {item : Parse NodeId}
    (onward : GoesOnward item)
    (closing : Kind)
    (rounds : Nat) :
    GoesOnward (itemsBefore closing item rounds) := by
  refine .bind (onward_check closing) fun closes => ?_
  cases closes with
  | true => exact .pure []
  | false => exact (onward_separated onward rounds #[]).bind fun all => .pure all.toList

section Rules

variable {read : Phrase → Parse NodeId} (onward : ∀ phrase, GoesOnward (read phrase))
  (rounds : Nat)

include onward

theorem onward_primary : GoesOnward (primary read rounds) := by
  refine .bind onward_peek fun token => ?_
  cases constantOf? token with
  | some constant => exact .bind onward_skip fun _ => onward_addNode _
  | none =>
      dsimp only
      split
      · exact .bind onward_skip fun _ => onward_add _ _ _
      · exact .bind onward_skip fun _ => .bind (onward _) fun inner =>
          .bind (onward_expect _ _) fun _ => onward_add _ _ _
      · exact .bind onward_skip fun _ => .bind (onward_itemsBefore (onward _) _ _) fun elements =>
          .bind (onward_expect _ _) fun _ => onward_add _ _ _
      · exact onward_noExpression

theorem onward_applications (remaining : Nat) (target : NodeId) :
    GoesOnward (applications read rounds remaining target) := by
  induction remaining generalizing target with
  | zero => exact .pure target
  | succ remaining inductionHypothesis =>
      refine .bind (onward_accept _) fun opening => ?_
      cases opening with
      | some _ =>
          exact .bind (onward_itemsBefore (onward _) _ _) fun _ =>
            .bind (onward_expect _ _) fun _ =>
              .bind (onward_add _ _ _) fun call => inductionHypothesis call
      | none =>
          refine .bind (onward_accept _) fun bracket => ?_
          cases bracket with
          | some _ =>
              exact .bind (onward _) fun _ => .bind (onward_expect _ _) fun _ =>
                .bind (onward_add _ _ _) fun element => inductionHypothesis element
          | none => exact .pure target

theorem onward_unary : GoesOnward (unary read rounds) := by
  refine .bind (onward_acceptAny _) fun operator => ?_
  cases operator with
  | some _ => exact .bind (onward _) fun _ => onward_add _ _ _
  | none =>
      exact .bind (onward_primary onward rounds) fun target =>
        onward_applications onward rounds rounds target

omit onward in
theorem onward_chain
    {level : Level}
    {operand : Parse NodeId}
    (operandOnward : GoesOnward operand)
    (remaining : Nat)
    (left : NodeId) :
    GoesOnward (chain level operand remaining left) := by
  induction remaining generalizing left with
  | zero => exact .pure left
  | succ remaining inductionHypothesis =>
      refine .bind (onward_acceptAny _) fun operator => ?_
      cases operator with
      | some _ =>
          exact operandOnward.bind fun _ => .bind (onward_add _ _ _) fun joined =>
            inductionHypothesis joined
      | none => exact .pure left

theorem onward_binary (levels : List Level) : GoesOnward (binary read rounds levels) := by
  induction levels with
  | nil => exact onward_unary onward rounds
  | cons level tighter inductionHypothesis =>
      exact inductionHypothesis.bind fun left => onward_chain inductionHypothesis rounds left

theorem onward_expression : GoesOnward (expression read rounds) := by
  refine .bind (onward_binary onward rounds levels) fun target =>
    .bind (onward_accept _) fun equals => ?_
  cases equals with
  | none => exact .pure target
  | some equals =>
      refine .bind (onward _) fun value => .bind onward_get fun cursor => ?_
      split
      · exact onward_add _ _ _
      · exact .bind (onward_record _) fun _ => .pure target

theorem onward_variableDeclaration : GoesOnward (variableDeclaration read) := by
  refine .bind (onward_expect _ _) fun name => .bind (onward_accept _) fun equals => ?_
  cases equals with
  | some _ =>
      exact .bind ((onward _).map some) fun _ => .bind (onward_expect _ _) fun _ => onward_add _ _ _
  | none => exact .bind (.pure none) fun _ => .bind (onward_expect _ _) fun _ => onward_add _ _ _

theorem onward_declaration (cursor : Cursor) :
    cursor.Onward (declaration read cursor).2 := by
  refine onward_recovering (.bind (onward_accept _) fun word => ?_) cursor
  cases word with
  | some _ => exact onward_variableDeclaration onward
  | none => exact onward _

theorem onward_declarationsBefore
    (closing : Option Kind)
    (remaining : Nat)
    (found : Array (Option NodeId))
    (cursor : Cursor) :
    cursor.Onward (declarationsBefore read closing remaining found cursor).2 := by
  induction remaining generalizing found cursor with
  | zero => exact .refl cursor
  | succ remaining inductionHypothesis =>
      unfold declarationsBefore
      split
      · exact .refl cursor
      · split
        · exact .refl cursor
        · exact (onward_declaration onward cursor).trans (inductionHypothesis _ _)

theorem onward_blockRest : GoesOnward (blockRest read rounds) :=
  .bind (fun cursor => onward_declarationsBefore onward _ rounds #[] cursor) fun found =>
    .bind (onward_expect _ _) fun _ => .pure found

omit onward in
theorem onward_parameter : GoesOnward parameter :=
  .bind (onward_expect _ _) fun _ => onward_add _ _ _

theorem onward_functionDeclaration : GoesOnward (functionDeclaration read rounds) :=
  .bind (onward_expect _ _) fun _ => .bind (onward_expect _ _) fun _ =>
    .bind (onward_itemsBefore onward_parameter _ _) fun _ => .bind (onward_expect _ _) fun _ =>
    .bind (onward_expect _ _) fun _ => .bind (onward_blockRest onward rounds) fun _ =>
    .bind (onward_add _ _ _) fun _ => onward_add _ _ _

theorem onward_branch (keyword : Token) : GoesOnward (branch read keyword) := by
  refine .bind (onward_expect _ _) fun _ => .bind (onward _) fun _ =>
    .bind (onward_expect _ _) fun _ => .bind (onward _) fun _ =>
      .bind (onward_accept _) fun other => ?_
  cases other with
  | some _ => exact .bind ((onward _).map some) fun _ => onward_add _ _ _
  | none => exact .bind (.pure none) fun _ => onward_add _ _ _

theorem onward_loop (keyword : Token) : GoesOnward (loop read keyword) :=
  .bind (onward_expect _ _) fun _ => .bind (onward _) fun _ => .bind (onward_expect _ _) fun _ =>
    .bind (onward _) fun _ => onward_add _ _ _

theorem onward_giveBack (keyword : Token) : GoesOnward (giveBack read keyword) := by
  refine .bind (onward_check _) fun empty => ?_
  cases empty with
  | true => exact .bind (.pure none) fun _ => .bind (onward_expect _ _) fun _ => onward_add _ _ _
  | false =>
      exact .bind ((onward _).map some) fun _ => .bind (onward_expect _ _) fun _ => onward_add _ _ _

theorem onward_statement : GoesOnward (statement read rounds) := by
  refine .bind onward_peek fun token => ?_
  split
  · exact .bind onward_skip fun _ => onward_functionDeclaration onward rounds
  · exact .bind onward_skip fun _ => .bind (onward _) fun _ => .bind (onward_expect _ _) fun _ =>
      onward_add _ _ _
  · exact .bind onward_skip fun _ => onward_branch onward token
  · exact .bind onward_skip fun _ => onward_loop onward token
  · exact .bind onward_skip fun _ => onward_giveBack onward token
  · exact .bind onward_skip fun _ => .bind (onward_blockRest onward rounds) fun _ =>
      onward_add _ _ _
  · exact .bind (onward_expression onward rounds) fun _ => .bind (onward_expect _ _) fun _ =>
      onward_add _ _ _

theorem onward_rule (phrase : Phrase) : GoesOnward (phrase.rule read rounds) := by
  cases phrase with
  | statement => exact onward_statement onward rounds
  | expression => exact onward_expression onward rounds
  | unary => exact onward_unary onward rounds

end Rules

/-- Reading a phrase goes onward. -/
theorem onward_readWithin (count : Nat) (phrase : Phrase) :
    GoesOnward (phrase.readWithin count) := by
  induction count generalizing phrase with
  | zero => exact onward_noExpression
  | succ count inductionHypothesis =>
      intro cursor
      rw [readWithin_succ]
      exact onward_rule inductionHypothesis (count + 1) phrase cursor

end Tree
end Scripting
