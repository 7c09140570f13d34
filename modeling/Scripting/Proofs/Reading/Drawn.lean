import Scripting.Proofs.Reading.Advance
import Scripting.Proofs.Reading.Sources
import Scripting.Proofs.Syntax.Layout

/-!
# The tokens of nodes

A node that is made while a program is read has one of the tokens of the program, whole and
unchanged.  So when texts are read into an arena, one after the other, every token of a node
is a token of one of them.  The faults that are found meanwhile are those of the structure.

`Draws allowed work holds` says of a part of the reading that it takes its tokens from those
that are allowed: it leaves only nodes with such tokens, and what it gives is as described.

Main statements: `draws_readProgram`, `Arena.exists_token_of_readAll`.
-/

namespace Scripting
namespace Tree

open Token (Kind)

variable {α β : Type} {allowed : Token → Prop}

/-- All nodes have tokens that are allowed. -/
def Arena.DrawnFrom (allowed : Token → Prop) (arena : Arena) : Prop :=
  ∀ id node, arena.get? id = some node → allowed node.token

theorem Arena.DrawnFrom.add
    {arena : Arena}
    {node : Node}
    (drawn : arena.DrawnFrom allowed)
    (known : allowed node.token) :
    (arena.add node).DrawnFrom allowed := by
  intro id other found
  obtain before | ⟨-, rfl⟩ := Arena.get?_add_cases found
  · exact drawn id other before
  · exact known

/-- The tokens that are left and those of all nodes are allowed, and all faults are of the
structure. -/
structure Cursor.DrawsFrom (allowed : Token → Prop) (cursor : Cursor) : Prop where
  rest : ∀ token ∈ cursor.rest, allowed token
  ending : allowed cursor.ending
  arena : cursor.arena.DrawnFrom allowed
  faults : ∀ fault ∈ cursor.faults.toList, fault.stage = .structural

/-- However the work ends, its tokens are allowed. What it gives is as described, and what it
fails with is a fault of the structure. -/
def Draws (allowed : Token → Prop) (work : Parse α) (holds : α → Prop) : Prop :=
  ∀ cursor : Cursor, cursor.DrawsFrom allowed →
    match work cursor with
    | .ok value later => later.DrawsFrom allowed ∧ holds value
    | .error fault later => later.DrawsFrom allowed ∧ fault.stage = .structural

/-- The work draws its tokens from those that are allowed. -/
abbrev DrawsNode (allowed : Token → Prop) (work : Parse α) : Prop :=
  Draws allowed work fun _ => True

namespace Draws

variable {work : Parse α} {holds : α → Prop}

theorem pure {value : α} (known : holds value) : Draws allowed (Pure.pure value) holds :=
  fun _ draws => ⟨draws, known⟩

theorem throw {fault : Fault} (stage : fault.stage = .structural) :
    Draws allowed (MonadExcept.throw fault : Parse α) holds :=
  fun _ draws => ⟨draws, stage⟩

theorem bind
    {next : α → Parse β}
    {last : β → Prop}
    (first : Draws allowed work holds)
    (second : ∀ value, holds value → Draws allowed (next value) last) :
    Draws allowed (work >>= next) last := by
  intro cursor draws
  have before := first cursor draws
  cases ends : work cursor with
  | ok value later =>
      rw [ends] at before
      rw [bind_of_ok ends]
      exact second value before.2 later before.1
  | error fault later =>
      rw [ends] at before
      rw [bind_of_error ends]
      exact before

theorem map
    {last : β → Prop}
    (first : Draws allowed work holds)
    (change : α → β)
    (known : ∀ value, holds value → last (change value)) :
    Draws allowed (change <$> work) last :=
  first.bind fun value held => .pure (known value held)

end Draws

/-! ## Tokens and nodes -/

theorem draws_peek : Draws allowed peek allowed := by
  refine fun cursor draws => ⟨draws, ?_⟩
  unfold Cursor.current
  cases front : cursor.rest with
  | nil => exact draws.ending
  | cons token rest => exact draws.rest token (front ▸ List.mem_cons_self)

theorem draws_check (kind : Kind) : DrawsNode allowed (check kind) :=
  fun _ draws => ⟨draws, trivial⟩

theorem draws_skip : DrawsNode allowed skip :=
  fun _ draws => ⟨⟨fun token member => draws.rest token (List.mem_of_mem_tail member),
    draws.ending, draws.arena, draws.faults⟩, trivial⟩

theorem draws_acceptAny (wanted : List Kind) :
    Draws allowed (acceptAny wanted) fun found => ∀ token ∈ found, allowed token := by
  rintro ⟨rest, ending, arena, faults⟩ draws
  cases rest with
  | nil => exact ⟨draws, by simp⟩
  | cons token rest =>
      obtain ⟨known, others⟩ := List.forall_mem_cons.mp draws.rest
      unfold acceptAny
      by_cases member : token.kind ∈ wanted
      · simp only [member, if_true]
        exact ⟨⟨others, draws.ending, draws.arena, draws.faults⟩, by simpa using known⟩
      · simp only [member, if_false]
        exact ⟨draws, by simp⟩

theorem draws_accept (kind : Kind) :
    Draws allowed (accept kind) fun found => ∀ token ∈ found, allowed token :=
  draws_acceptAny [kind]

theorem draws_expect (kind : Kind) (message : String) :
    Draws allowed (expect kind message) allowed := by
  refine (draws_accept kind).bind fun found known => ?_
  cases found with
  | some token => exact .pure (known token rfl)
  | none => exact draws_peek.bind fun _ _ => .throw rfl

theorem draws_noExpression {holds : α → Prop} : Draws allowed (noExpression : Parse α) holds :=
  draws_peek.bind fun _ _ => .throw rfl

theorem draws_addNode {node : Node} (known : allowed node.token) :
    DrawsNode allowed (addNode node) :=
  fun _ draws => ⟨⟨draws.rest, draws.ending, draws.arena.add known, draws.faults⟩, trivial⟩

theorem draws_add
    {kind : NodeKind}
    {token : Token}
    {children : List (Option NodeId)}
    (known : allowed token) :
    DrawsNode allowed (add kind token children) :=
  draws_addNode known

/-- A fault of the structure is recorded among the others. -/
theorem Cursor.DrawsFrom.push
    {cursor : Cursor}
    (draws : cursor.DrawsFrom allowed)
    {fault : Fault}
    (stage : fault.stage = .structural) :
    ∀ other ∈ (cursor.faults.push fault).toList, other.stage = .structural := by
  rw [Array.toList_push]
  exact List.forall_mem_append.mpr ⟨draws.faults, List.forall_mem_singleton.mpr stage⟩

theorem draws_record {fault : Fault} (stage : fault.stage = .structural) :
    DrawsNode allowed (record fault) :=
  fun _ draws => ⟨⟨draws.rest, draws.ending, draws.arena, draws.push stage⟩, trivial⟩

/-! ## The grammar -/

section Items

variable {item : Parse NodeId} (draws : DrawsNode allowed item)

include draws

theorem draws_separated (rounds : Nat) (found : Array (Option NodeId)) :
    DrawsNode allowed (separated item rounds found) := by
  induction rounds generalizing found with
  | zero => exact .pure trivial
  | succ rounds inductionHypothesis =>
      refine draws.bind fun id _ => (draws_accept .comma).bind fun comma _ => ?_
      cases comma with
      | some _ => exact inductionHypothesis _
      | none => exact .pure trivial

theorem draws_itemsBefore (closing : Kind) (rounds : Nat) :
    DrawsNode allowed (itemsBefore closing item rounds) := by
  refine (draws_check closing).bind fun closes _ => ?_
  cases closes with
  | true => exact .pure trivial
  | false => exact (draws_separated draws rounds #[]).bind fun _ _ => .pure trivial

end Items

section Rules

variable {read : Phrase → Parse NodeId}
  (draws : ∀ phrase, DrawsNode allowed (read phrase))
  (rounds : Nat)

include draws

/-! ### Expressions -/

theorem draws_primary : DrawsNode allowed (primary read rounds) := by
  refine draws_peek.bind fun token known => ?_
  cases constantOf? token with
  | some constant => exact draws_skip.bind fun _ _ => draws_addNode known
  | none =>
      dsimp only
      split
      · exact draws_skip.bind fun _ _ => draws_add known
      · exact draws_skip.bind fun _ _ => (draws _).bind fun _ _ =>
          (draws_expect _ _).bind fun _ _ => draws_add known
      · exact draws_skip.bind fun _ _ => (draws_itemsBefore (draws _) _ _).bind fun _ _ =>
          (draws_expect _ _).bind fun _ _ => draws_add known
      · exact draws_noExpression

theorem draws_applications (remaining : Nat) (target : NodeId) :
    DrawsNode allowed (applications read rounds remaining target) := by
  induction remaining generalizing target with
  | zero => exact .pure trivial
  | succ remaining inductionHypothesis =>
      refine (draws_accept _).bind fun opening _ => ?_
      cases opening with
      | some _ =>
          exact (draws_itemsBefore (draws _) _ _).bind fun _ _ =>
            (draws_expect _ _).bind fun _ known => (draws_add known).bind fun call _ =>
            inductionHypothesis call
      | none =>
          refine (draws_accept _).bind fun bracket _ => ?_
          cases bracket with
          | some _ =>
              exact (draws _).bind fun _ _ => (draws_expect _ _).bind fun _ known =>
                (draws_add known).bind fun element _ => inductionHypothesis element
          | none => exact .pure trivial

theorem draws_unary : DrawsNode allowed (unary read rounds) := by
  refine (draws_acceptAny _).bind fun operator known => ?_
  cases operator with
  | some operator => exact (draws _).bind fun _ _ => draws_add (known operator rfl)
  | none =>
      exact (draws_primary draws rounds).bind fun target _ =>
        draws_applications draws rounds rounds target

omit draws in
theorem draws_chain
    {level : Level}
    {operand : Parse NodeId}
    (operandDraws : DrawsNode allowed operand)
    (remaining : Nat)
    (left : NodeId) :
    DrawsNode allowed (chain level operand remaining left) := by
  induction remaining generalizing left with
  | zero => exact .pure trivial
  | succ remaining inductionHypothesis =>
      refine (draws_acceptAny _).bind fun operator known => ?_
      cases operator with
      | some operator =>
          exact operandDraws.bind fun _ _ => (draws_add (known operator rfl)).bind fun joined _ =>
            inductionHypothesis joined
      | none => exact .pure trivial

theorem draws_binary (strengths : List Level) :
    DrawsNode allowed (binary read rounds strengths) := by
  induction strengths with
  | nil => exact draws_unary draws rounds
  | cons level tighter inductionHypothesis =>
      exact inductionHypothesis.bind fun left _ => draws_chain inductionHypothesis rounds left

omit draws in
/-- A name that is assigned to keeps its token. -/
theorem draws_assigned (equals : Token) (target value : NodeId) :
    DrawsNode allowed
      (get >>= fun cursor => assigned equals target value (cursor.arena.get? target)) := by
  intro cursor draws
  rw [get_bind]
  obtain ⟨node, found, -, same⟩ | same :=
    assigned_eq_or equals target value (cursor.arena.get? target)
  · rw [same]
    exact draws_add (draws.arena target node found) cursor draws
  · rw [same]
    have recorded : DrawsNode allowed
        (record (.atToken .invalidAssignmentTarget equals) >>= fun _ => pure target) :=
      (draws_record rfl).bind fun _ _ => .pure trivial
    exact recorded cursor draws

theorem draws_expression : DrawsNode allowed (expression read rounds) := by
  rw [expression_eq]
  refine (draws_binary draws rounds levels).bind fun target _ =>
    (draws_accept _).bind fun equals _ => ?_
  cases equals with
  | none => exact .pure trivial
  | some equals =>
      rw [afterTarget_some]
      exact (draws _).bind fun value _ => draws_assigned equals target value

/-! ### Statements -/

/-- A part that may be left out. -/
theorem draws_optional (phrase : Phrase) :
    DrawsNode allowed (some <$> read phrase) :=
  (draws phrase).map some fun _ _ => trivial

theorem draws_variableDeclaration : DrawsNode allowed (variableDeclaration read) := by
  refine (draws_expect _ _).bind fun name known => (draws_accept _).bind fun equals _ => ?_
  have following (initializer : Option NodeId) : DrawsNode allowed
      (do
        let _ ← expect .semicolon "expected ';' after variable declaration"
        add .declaration name [initializer]) :=
    (draws_expect _ _).bind fun _ _ => draws_add known
  cases equals with
  | some _ => exact (draws_optional draws _).bind fun initializer _ => following initializer
  | none => exact following none

theorem draws_attempt : DrawsNode allowed (attempt read) := by
  refine (draws_accept _).bind fun word _ => ?_
  cases word with
  | some _ => exact draws_variableDeclaration draws
  | none => exact draws _

theorem draws_declaration {cursor : Cursor} (within : cursor.DrawsFrom allowed) :
    (declaration read cursor).2.DrawsFrom allowed := by
  have reads := draws_attempt draws cursor within
  rw [declaration_eq_recovering]
  cases ends : attempt read cursor with
  | ok id later =>
      rw [ends] at reads
      rw [recovering_of_ok ends]
      exact reads.1
  | error fault later =>
      rw [ends] at reads
      rw [recovering_of_error ends]
      obtain ⟨after, stage⟩ := reads
      exact ⟨fun token member => after.rest token ((resume_suffix _).subset member),
        after.ending, after.arena, after.push stage⟩

theorem draws_declarationsBefore
    (closing : Option Kind)
    (remaining : Nat)
    (found : Array (Option NodeId))
    {cursor : Cursor}
    (within : cursor.DrawsFrom allowed) :
    (declarationsBefore read closing remaining found cursor).2.DrawsFrom allowed := by
  induction remaining generalizing found cursor with
  | zero => exact within
  | succ remaining inductionHypothesis =>
      unfold declarationsBefore
      split
      · exact within
      · split
        · exact within
        · exact inductionHypothesis _ (draws_declaration draws within)

theorem draws_blockRest : DrawsNode allowed (blockRest read rounds) := by
  have found : DrawsNode allowed
      (unfailing (declarationsBefore read (some .rightBrace) rounds #[])) :=
    fun _ within => ⟨draws_declarationsBefore draws _ rounds #[] within, trivial⟩
  exact found.bind fun _ _ => (draws_expect _ _).bind fun _ _ => .pure trivial

omit draws in
theorem draws_parameter : DrawsNode allowed parameter :=
  (draws_expect _ _).bind fun _ known => draws_add known

theorem draws_functionDeclaration : DrawsNode allowed (functionDeclaration read rounds) :=
  (draws_expect _ _).bind fun _ name => (draws_expect _ _).bind fun _ _ =>
    (draws_itemsBefore draws_parameter _ _).bind fun _ _ => (draws_expect _ _).bind fun _ _ =>
    (draws_expect _ _).bind fun _ brace => (draws_blockRest draws rounds).bind fun _ _ =>
    (draws_add brace).bind fun _ _ => draws_add name

theorem draws_branch {keyword : Token} (known : allowed keyword) :
    DrawsNode allowed (branch read keyword) := by
  refine (draws_expect _ _).bind fun _ _ => (draws _).bind fun _ _ =>
    (draws_expect _ _).bind fun _ _ => (draws _).bind fun _ _ =>
      (draws_accept _).bind fun other _ => ?_
  cases other with
  | some _ => exact (draws_optional draws _).bind fun _ _ => draws_add known
  | none => exact draws_add known

theorem draws_loop {keyword : Token} (known : allowed keyword) :
    DrawsNode allowed (loop read keyword) :=
  (draws_expect _ _).bind fun _ _ => (draws _).bind fun _ _ => (draws_expect _ _).bind fun _ _ =>
    (draws _).bind fun _ _ => draws_add known

theorem draws_giveBack {keyword : Token} (known : allowed keyword) :
    DrawsNode allowed (giveBack read keyword) := by
  refine (draws_check _).bind fun empty _ => ?_
  have following (value : Option NodeId) : DrawsNode allowed
      (do
        let _ ← expect .semicolon "expected ';' after return value"
        add .giveBack keyword [value]) :=
    (draws_expect _ _).bind fun _ _ => draws_add known
  cases empty with
  | true => exact following none
  | false => exact (draws_optional draws _).bind fun value _ => following value

theorem draws_statement : DrawsNode allowed (statement read rounds) := by
  refine draws_peek.bind fun token known => ?_
  split
  · exact draws_skip.bind fun _ _ => draws_functionDeclaration draws rounds
  · exact draws_skip.bind fun _ _ => (draws _).bind fun _ _ =>
      (draws_expect _ _).bind fun _ _ => draws_add known
  · exact draws_skip.bind fun _ _ => draws_branch draws known
  · exact draws_skip.bind fun _ _ => draws_loop draws known
  · exact draws_skip.bind fun _ _ => draws_giveBack draws known
  · exact draws_skip.bind fun _ _ => (draws_blockRest draws rounds).bind fun _ _ => draws_add known
  · exact (draws_expression draws rounds).bind fun _ _ =>
      (draws_expect _ _).bind fun _ semicolon => draws_add semicolon

theorem draws_rule (phrase : Phrase) : DrawsNode allowed (phrase.rule read rounds) := by
  cases phrase with
  | statement => exact draws_statement draws rounds
  | expression => exact draws_expression draws rounds
  | unary => exact draws_unary draws rounds

end Rules

theorem draws_readWithin (count : Nat) (phrase : Phrase) :
    DrawsNode allowed (phrase.readWithin count) := by
  induction count generalizing phrase with
  | zero => exact draws_noExpression
  | succ count inductionHypothesis =>
      intro cursor
      rw [readWithin_succ]
      exact draws_rule inductionHypothesis (count + 1) phrase cursor

/-! ## Programs -/

/-- The nodes of a program have its tokens, and its faults are those of its structure. -/
theorem draws_readProgram
    {tokens : Token.Sequence}
    {arena : Arena}
    (closed : tokens.ending.kind = .endOfInput)
    (body : ∀ token ∈ tokens.body, allowed token)
    (ending : allowed tokens.ending)
    (drawn : arena.DrawnFrom allowed) :
    (readProgram tokens arena).arena.DrawnFrom allowed ∧
      ∀ fault ∈ (readProgram tokens arena).faults, fault.stage = .structural := by
  have found : (readDeclarations tokens arena).2.DrawsFrom allowed :=
    draws_declarationsBefore (draws_readWithin _) none _ #[] ⟨body, ending, drawn, by simp⟩
  rw [readProgram_eq closed arena]
  exact ⟨found.arena.add ending, found.faults⟩

/-- The arena into which texts have been read, one after the other. -/
def Arena.readAll (arena : Arena) : List String → Arena
  | [] => arena
  | text :: others => (readProgram (tokensOf text) arena).arena.readAll others

theorem Arena.readAll_append (arena : Arena) (texts others : List String) :
    arena.readAll (texts ++ others) = (arena.readAll texts).readAll others := by
  induction texts generalizing arena with
  | nil => rfl
  | cons text rest inductionHypothesis => exact inductionHypothesis _

theorem Arena.DrawnFrom.readAll
    {arena : Arena}
    (drawn : arena.DrawnFrom allowed)
    {texts : List String}
    (known : ∀ text ∈ texts, allowed (tokensOf text).ending ∧
      ∀ token ∈ (tokensOf text).body, allowed token) :
    (arena.readAll texts).DrawnFrom allowed := by
  induction texts generalizing arena with
  | nil => exact drawn
  | cons text others inductionHypothesis =>
      obtain ⟨⟨ending, body⟩, rest⟩ := List.forall_mem_cons.mp known
      exact inductionHypothesis (draws_readProgram rfl body ending drawn).1 rest

/-- The token of a node, unless it is an end of the input, is a token of a text that has been
read. -/
theorem Arena.exists_token_of_readAll
    {texts : List String}
    {id : NodeId}
    {node : Node}
    (found : (empty.readAll texts).get? id = some node)
    (inside : node.token.kind ≠ .endOfInput) :
    ∃ text ∈ texts, node.token ∈ (tokensOf text).body := by
  have drawn : (empty.readAll texts).DrawnFrom fun token => token.kind = .endOfInput ∨
      ∃ text ∈ texts, token ∈ (tokensOf text).body := by
    refine DrawnFrom.readAll (fun id node found => by simp [get?, empty] at found)
      fun text member => ⟨.inl rfl, fun token isToken => .inr ⟨text, member, isToken⟩⟩
  exact (drawn id node found).resolve_left inside

end Tree
end Scripting
