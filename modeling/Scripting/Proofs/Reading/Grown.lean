import Scripting.Proofs.Reading.Advance
import Scripting.Proofs.Reading.Lookups

/-!
# What is read is a tree

Whatever the tokens are, the index that reading gives leads to a tree in the arena: a
node is added only after its children, which are trees already.  So nothing is looked up
that is not there, neither a token nor the target of an assignment.

Main statements: `exists_standsAt_readProgram`, for the root of a program, with or
without faults, and `inside_program`.
-/

namespace Scripting
namespace Tree

open Token (Kind)

/-- A tree stands at the index, which may be none. -/
def Arena.Holds (arena : Arena) (id : Option NodeId) : Prop :=
  ∃ tree : Rose, tree.StandsAt arena id

namespace Arena.Holds

variable {arena later : Arena}

theorem mono
    {id : Option NodeId}
    (holds : arena.Holds id)
    (before : arena ≤ later) :
    later.Holds id := by
  obtain ⟨tree, stands⟩ := holds
  exact ⟨tree, stands.mono before⟩

theorem absent (arena : Arena) : arena.Holds none :=
  ⟨.absent, (Rose.standsAt_absent none).mpr rfl⟩

/-- Trees stand at indices when one stands at each. -/
theorem exists_allStandAt
    {ids : List (Option NodeId)}
    (hold : ∀ id ∈ ids, arena.Holds id) :
    ∃ trees : List Rose, Rose.AllStandAt arena trees ids := by
  induction ids with
  | nil => exact ⟨[], (Rose.allStandAt_nil _).mpr rfl⟩
  | cons id others inductionHypothesis =>
      obtain ⟨tree, stands⟩ := hold id List.mem_cons_self
      obtain ⟨trees, stand⟩ := inductionHypothesis fun other member =>
        hold other (List.mem_cons_of_mem id member)
      exact ⟨tree :: trees, (Rose.allStandAt_cons_cons ..).mpr ⟨stands, stand⟩⟩

/-- There is a node where a tree stands. -/
theorem has {id : NodeId} (holds : arena.Holds (some id)) : arena.Has id := by
  obtain ⟨tree, stands⟩ := holds
  cases tree with
  | absent => cases (Rose.standsAt_absent _).mp stands
  | node kind token constant children =>
      obtain ⟨index, ids, same, found, -⟩ := (Rose.standsAt_node ..).mp stands
      cases same
      exact ⟨_, found⟩

/-- A node that is added after its children is a tree. -/
theorem add
    {node : Node}
    (hold : ∀ id ∈ node.children, arena.Holds id) :
    (arena.add node).Holds (some arena.nextId) := by
  obtain ⟨trees, stand⟩ := exists_allStandAt hold
  exact ⟨_, Rose.standsAt_add stand⟩

end Arena.Holds

variable {α β : Type}

/-- Wherever the work begins in the tokens, in an arena that comes after the given one, it
looks up only what is there, and when it succeeds, `holds` is true of what it gives, in the
arena it leaves. -/
def Grows
    (tokens : Token.Sequence)
    (arena : Arena)
    (work : Parse α)
    (holds : Arena → α → Prop) : Prop :=
  ∀ cursor : Cursor, cursor.StandsIn tokens → arena ≤ cursor.arena →
    Inside tokens work cursor ∧
      ∀ value later, work cursor = .ok value later → holds later.arena value

/-- The work gives the index of a tree. -/
abbrev GrowsTree (tokens : Token.Sequence) (arena : Arena) (work : Parse NodeId) : Prop :=
  Grows tokens arena work fun later id => later.Holds (some id)

/-- The work gives indices of trees. -/
abbrev GrowsTrees
    (tokens : Token.Sequence)
    (arena : Arena)
    (work : Parse (List (Option NodeId))) : Prop :=
  Grows tokens arena work fun later ids => ∀ id ∈ ids, later.Holds id

variable {tokens : Token.Sequence} {arena : Arena}

namespace Grows

/-- What comes second may rely on what comes first. -/
theorem bind
    {work : Parse α}
    {next : α → Parse β}
    {first : Arena → α → Prop}
    {second : Arena → β → Prop}
    (grows : Grows tokens arena work first)
    (onward : GoesOnward work)
    (following : ∀ value between, arena ≤ between → first between value →
      Grows tokens between (next value) second) :
    Grows tokens arena (work >>= next) second := by
  intro cursor stands before
  obtain ⟨inside, holds⟩ := grows cursor stands before
  have rest : ∀ value between, work cursor = .ok value between →
      Inside tokens (next value) between ∧
        ∀ result later, next value between = .ok result later → second later.arena result := by
    intro value between ends
    have after := onward.after_ok ends
    exact following value between.arena (Arena.le_trans before after.arena)
      (holds value between ends) between (stands.onward after) (Arena.le_refl _)
  refine ⟨.bind inside fun value between ends => (rest value between ends).1, ?_⟩
  intro result later ends
  obtain ⟨value, between, workEnds, nextEnds⟩ := bind_eq_ok.mp ends
  exact (rest value between workEnds).2 result later nextEnds

theorem mono
    {later : Arena}
    {work : Parse α}
    {holds : Arena → α → Prop}
    (grows : Grows tokens arena work holds)
    (before : arena ≤ later) :
    Grows tokens later work holds :=
  fun cursor stands after => grows cursor stands (Arena.le_trans before after)

/-- Steady work gives nothing of which anything has to be true. -/
theorem of_steady {work : Parse α} (steady : Steady tokens work) :
    Grows tokens arena work fun _ _ => True :=
  fun cursor stands _ => ⟨steady.inside cursor stands, fun _ _ _ => trivial⟩

/-- What comes first need not give a tree. -/
theorem after
    {work : Parse α}
    {next : α → Parse β}
    {holds : Arena → β → Prop}
    (steady : Steady tokens work)
    (following : ∀ value, Grows tokens arena (next value) holds) :
    Grows tokens arena (work >>= next) holds :=
  (of_steady steady).bind steady.onward fun value _ before _ => (following value).mono before

theorem pure
    {value : α}
    {holds : Arena → α → Prop}
    (held : ∀ later, arena ≤ later → holds later value) :
    Grows tokens arena (Pure.pure value) holds := by
  intro cursor _ before
  refine ⟨.pure value cursor, fun result later ends => ?_⟩
  obtain ⟨rfl, rfl⟩ := pure_eq_ok.mp ends
  exact held cursor.arena before

theorem noExpression {holds : Arena → α → Prop} : Grows tokens arena noExpression holds :=
  fun cursor stands _ => ⟨steady_noExpression.inside cursor stands,
    fun value _ ends => absurd ends (noExpression_ne_ok value)⟩

end Grows

theorem grows_addNode
    {node : Node}
    (hold : ∀ id ∈ node.children, arena.Holds id) :
    GrowsTree tokens arena (addNode node) := by
  intro cursor _ before
  have standing : ∀ id ∈ node.children, cursor.arena.Holds id :=
    fun id member => (hold id member).mono before
  refine ⟨.addNode fun child member => (standing _ member).has, fun id later ends => ?_⟩
  simp only [addNode, EStateM.Result.ok.injEq] at ends
  obtain ⟨rfl, rfl⟩ := ends
  exact .add standing

theorem grows_add
    (kind : NodeKind)
    (token : Token)
    {children : List (Option NodeId)}
    (hold : ∀ id ∈ children, arena.Holds id) :
    GrowsTree tokens arena (add kind token children) :=
  grows_addNode hold

/-- The target of an assignment is looked up where its tree stands. -/
theorem grows_nodeAt
    {id : NodeId}
    (holds : arena.Holds (some id)) :
    Grows tokens arena (nodeAt id) fun _ _ => True :=
  fun _ _ before => ⟨.nodeAt (holds.mono before).has, fun _ _ _ => trivial⟩

theorem grows_separated
    {item : Parse NodeId}
    (onward : GoesOnward item)
    (grows : ∀ arena, GrowsTree tokens arena item)
    (rounds : Nat)
    {found : Array (Option NodeId)}
    (hold : ∀ id ∈ found, arena.Holds id) :
    Grows tokens arena (separated item rounds found) fun later all =>
      ∀ id ∈ all, later.Holds id := by
  induction rounds generalizing arena found with
  | zero => exact .pure fun later before id member => (hold id member).mono before
  | succ rounds inductionHypothesis =>
      refine (grows arena).bind onward fun id between before holds => ?_
      have pushed : ∀ other ∈ found.push (some id), between.Holds other := by
        intro other member
        obtain member | rfl := Array.mem_push.mp member
        · exact (hold other member).mono before
        · exact holds
      refine .after (steady_accept .comma) fun comma => ?_
      cases comma with
      | some _ => exact inductionHypothesis pushed
      | none => exact .pure fun later after other member => (pushed other member).mono after

theorem grows_itemsBefore
    {item : Parse NodeId}
    (onward : GoesOnward item)
    (grows : ∀ arena, GrowsTree tokens arena item)
    (closing : Kind)
    (rounds : Nat) :
    GrowsTrees tokens arena (itemsBefore closing item rounds) := by
  refine .after (steady_check closing) fun closes => ?_
  cases closes with
  | true => exact .pure (by simp)
  | false =>
      refine (grows_separated onward grows rounds (by simp)).bind
        (onward_separated onward rounds #[]) fun all between before hold => ?_
      exact .pure fun later after id member => (hold id (by simpa using member)).mono after

section Rules

variable {read : Phrase → Parse NodeId}
  (onward : ∀ phrase, GoesOnward (read phrase))
  (grows : ∀ phrase arena, GrowsTree tokens arena (read phrase))
  (rounds : Nat)

include onward grows

theorem grows_primary : GrowsTree tokens arena (primary read rounds) := by
  refine .after steady_peek fun token => ?_
  cases constantOf? token with
  | some constant => exact .after steady_skip fun _ => grows_addNode (by simp)
  | none =>
      dsimp only
      split
      · exact .after steady_skip fun _ => grows_add _ _ (by simp)
      · exact .after steady_skip fun _ => (grows _ _).bind (onward _) fun inner _ _ holds =>
          .after (steady_expect _ _) fun _ => grows_add _ _ (by simpa using holds)
      · exact .after steady_skip fun _ =>
          (grows_itemsBefore (onward _) (grows _) _ _).bind (onward_itemsBefore (onward _) _ _)
            fun elements _ _ hold => .after (steady_expect _ _) fun _ => grows_add _ _ hold
      · exact .noExpression

theorem grows_applications
    (remaining : Nat)
    {target : NodeId}
    (holds : arena.Holds (some target)) :
    GrowsTree tokens arena (applications read rounds remaining target) := by
  induction remaining generalizing arena target with
  | zero => exact .pure fun later before => holds.mono before
  | succ remaining inductionHypothesis =>
      refine .after (steady_accept _) fun opening => ?_
      cases opening with
      | some _ =>
          refine (grows_itemsBefore (onward _) (grows _) _ _).bind
            (onward_itemsBefore (onward _) _ _) fun arguments between before hold =>
            .after (steady_expect _ _) fun paren => ?_
          have children : ∀ id ∈ some target :: arguments, between.Holds id := by
            simpa using ⟨holds.mono before, hold⟩
          exact (grows_add _ _ children).bind (onward_add _ _ _) fun call _ _ added =>
            inductionHypothesis added
      | none =>
          refine .after (steady_accept _) fun bracket => ?_
          cases bracket with
          | some _ =>
              refine (grows _ _).bind (onward _) fun position between before positionHolds =>
                .after (steady_expect _ _) fun bracket => ?_
              have children : ∀ id ∈ [some target, some position], between.Holds id := by
                simpa using ⟨holds.mono before, positionHolds⟩
              exact (grows_add _ _ children).bind (onward_add _ _ _) fun element _ _ added =>
                inductionHypothesis added
          | none => exact .pure fun later before => holds.mono before

theorem grows_unary : GrowsTree tokens arena (unary read rounds) := by
  refine .after (steady_acceptAny _) fun operator => ?_
  cases operator with
  | some _ =>
      exact (grows _ _).bind (onward _) fun operand _ _ holds =>
        grows_add _ _ (by simpa using holds)
  | none =>
      exact (grows_primary onward grows rounds).bind (onward_primary onward rounds)
        fun target _ _ holds => grows_applications onward grows rounds rounds holds

omit onward grows in
theorem grows_chain
    (level : Level)
    {operand : Parse NodeId}
    (operandOnward : GoesOnward operand)
    (operandGrows : ∀ arena, GrowsTree tokens arena operand)
    (remaining : Nat)
    {left : NodeId}
    (holds : arena.Holds (some left)) :
    GrowsTree tokens arena (chain level operand remaining left) := by
  induction remaining generalizing arena left with
  | zero => exact .pure fun later before => holds.mono before
  | succ remaining inductionHypothesis =>
      refine .after (steady_acceptAny _) fun operator => ?_
      cases operator with
      | some _ =>
          refine (operandGrows arena).bind operandOnward fun right between before rightHolds => ?_
          have children : ∀ id ∈ [some left, some right], between.Holds id := by
            simpa using ⟨holds.mono before, rightHolds⟩
          exact (grows_add _ _ children).bind (onward_add _ _ _) fun joined _ _ added =>
            inductionHypothesis added
      | none => exact .pure fun later before => holds.mono before

theorem grows_binary (levels : List Level) :
    GrowsTree tokens arena (binary read rounds levels) := by
  induction levels generalizing arena with
  | nil => exact grows_unary onward grows rounds
  | cons level tighter inductionHypothesis =>
      have tighterOnward := onward_binary onward rounds tighter
      exact inductionHypothesis.bind tighterOnward fun left _ _ holds =>
        grows_chain level tighterOnward (fun _ => inductionHypothesis) rounds holds

theorem grows_expression : GrowsTree tokens arena (expression read rounds) := by
  rw [expression_eq]
  refine (grows_binary onward grows rounds levels).bind (onward_binary onward rounds levels)
    fun target between _ holds => .after (steady_accept _) fun equals => ?_
  cases equals with
  | none => exact .pure fun later before => holds.mono before
  | some equals =>
      refine (grows _ _).bind (onward _) fun value third before valueHolds =>
        (grows_nodeAt (holds.mono before)).bind (onward_nodeAt target)
          fun found fourth after _ => ?_
      obtain ⟨node, -, -, same⟩ | same := assigned_eq_or equals target value found
      · rw [same]
        exact grows_add _ _ (by simpa using valueHolds.mono after)
      · rw [same]
        exact .after (steady_record _) fun _ => .pure fun later last =>
          holds.mono (Arena.le_trans (Arena.le_trans before after) last)

theorem grows_optional (phrase : Phrase) :
    Grows tokens arena (some <$> read phrase) fun later id => later.Holds id :=
  (grows phrase arena).bind (onward phrase) fun _ _ _ holds =>
    .pure fun _ before => holds.mono before

omit onward grows in
/-- What is left out is no tree that could fail to stand. -/
theorem grows_none :
    Grows tokens arena (pure none : Parse (Option NodeId)) fun later id => later.Holds id :=
  .pure fun later _ => .absent later

theorem grows_variableDeclaration : GrowsTree tokens arena (variableDeclaration read) := by
  refine .after (steady_expect _ _) fun name => .after (steady_accept _) fun equals => ?_
  have following : ∀ (initializer : Option NodeId) (between : Arena),
      arena ≤ between → between.Holds initializer →
      GrowsTree tokens between (do
        let _ ← expect .semicolon "expected ';' after variable declaration"
        add .declaration name [initializer]) :=
    fun initializer between _ holds => .after (steady_expect _ _) fun _ =>
      grows_add _ _ (by simpa using holds)
  cases equals with
  | some _ => exact (grows_optional onward grows _).bind ((onward _).map some) following
  | none => exact grows_none.bind (.pure none) following

theorem grows_attempt : GrowsTree tokens arena (attempt read) := by
  refine .after (steady_accept _) fun word => ?_
  cases word with
  | some _ => exact grows_variableDeclaration onward grows
  | none => exact grows _ _

/-- A declaration that is lost leaves out its tree, and reading goes on at a place of the
sequence. -/
theorem grows_declaration :
    Grows tokens arena (unfailing (declaration read)) fun later id => later.Holds id := by
  intro cursor stands before
  obtain ⟨inside, holds⟩ := grows_attempt onward grows cursor stands before
  rw [declaration_eq_recovering]
  refine ⟨.recovering inside fun fault later ends rest suffix => ?_, fun id later ends => ?_⟩
  · have after := onward_attempt onward cursor
    rw [ends] at after
    have lost := stands.onward after
    exact Cursor.StandsIn.pointsInto ⟨suffix.trans lost.rest, lost.ending⟩
  · unfold unfailing at ends
    cases outcome : attempt read cursor with
    | ok index between =>
        rw [recovering_of_ok outcome] at ends
        cases ends
        exact holds _ _ outcome
    | error fault between =>
        rw [recovering_of_error outcome] at ends
        cases ends
        exact .absent _

theorem grows_declarationsBefore
    (closing : Option Kind)
    (remaining : Nat)
    {found : Array (Option NodeId)}
    (hold : ∀ id ∈ found, arena.Holds id) :
    GrowsTrees tokens arena (unfailing (declarationsBefore read closing remaining found)) := by
  have stop : ∀ {arena : Arena} {found : Array (Option NodeId)},
      (∀ id ∈ found, arena.Holds id) → GrowsTrees tokens arena (pure found.toList) :=
    fun hold => .pure fun later after id member => (hold id (by simpa using member)).mono after
  induction remaining generalizing arena found with
  | zero => exact stop hold
  | succ remaining inductionHypothesis =>
      rw [unfailing_declarationsBefore_succ]
      refine .after steady_front fun token => ?_
      cases token with
      | none => exact stop hold
      | some token =>
          dsimp only
          split
          · exact stop hold
          · refine (grows_declaration onward grows).bind
              (fun cursor => onward_declaration onward cursor)
              fun id between after holds => inductionHypothesis fun other member => ?_
            obtain member | rfl := Array.mem_push.mp member
            · exact (hold other member).mono after
            · exact holds

theorem grows_blockRest : GrowsTrees tokens arena (blockRest read rounds) := by
  refine (grows_declarationsBefore onward grows (some .rightBrace) rounds (by simp)).bind
    (fun cursor => onward_declarationsBefore onward _ rounds #[] cursor)
    fun ids between _ hold => .after (steady_expect _ _) fun _ => ?_
  exact .pure fun later after id member => (hold id member).mono after

omit onward grows in
theorem grows_parameter : GrowsTree tokens arena parameter :=
  .after (steady_expect _ _) fun _ => grows_add _ _ (by simp)

theorem grows_functionDeclaration : GrowsTree tokens arena (functionDeclaration read rounds) := by
  refine .after (steady_expect _ _) fun name => .after (steady_expect _ _) fun _ =>
    (grows_itemsBefore onward_parameter (fun _ => grows_parameter) _ _).bind
      (onward_itemsBefore onward_parameter _ _) fun parameters first _ parametersHold =>
    .after (steady_expect _ _) fun _ => .after (steady_expect _ _) fun brace =>
    (grows_blockRest onward grows rounds).bind (onward_blockRest onward rounds)
      fun found second before foundHold =>
    (grows_add _ _ foundHold).bind (onward_add _ _ _) fun body third after bodyHolds => ?_
  apply grows_add
  intro id member
  obtain member | member := List.mem_append.mp member
  · exact (parametersHold id member).mono (Arena.le_trans before after)
  · obtain rfl := List.mem_singleton.mp member
    exact bodyHolds

theorem grows_branch (keyword : Token) : GrowsTree tokens arena (branch read keyword) := by
  refine .after (steady_expect _ _) fun _ => (grows _ _).bind (onward _)
    fun condition first _ conditionHolds => .after (steady_expect _ _) fun _ =>
    (grows _ _).bind (onward _) fun consequence second before consequenceHolds =>
    .after (steady_accept _) fun other => ?_
  have following : ∀ (alternative : Option NodeId) (between : Arena),
      second ≤ between → between.Holds alternative →
      GrowsTree tokens between
        (add .branch keyword [some condition, some consequence, alternative]) := by
    intro alternative between after holds
    apply grows_add
    simpa using ⟨conditionHolds.mono (Arena.le_trans before after),
      consequenceHolds.mono after, holds⟩
  cases other with
  | some _ => exact (grows_optional onward grows _).bind ((onward _).map some) following
  | none => exact grows_none.bind (.pure none) following

theorem grows_loop (keyword : Token) : GrowsTree tokens arena (loop read keyword) := by
  refine .after (steady_expect _ _) fun _ => (grows _ _).bind (onward _)
    fun condition first _ conditionHolds => .after (steady_expect _ _) fun _ =>
    (grows _ _).bind (onward _) fun body second before bodyHolds => ?_
  apply grows_add
  simpa using ⟨conditionHolds.mono before, bodyHolds⟩

theorem grows_giveBack (keyword : Token) : GrowsTree tokens arena (giveBack read keyword) := by
  refine .after (steady_check _) fun empty => ?_
  have following : ∀ (value : Option NodeId) (between : Arena),
      arena ≤ between → between.Holds value →
      GrowsTree tokens between (do
        let _ ← expect .semicolon "expected ';' after return value"
        add .giveBack keyword [value]) :=
    fun value between _ holds => .after (steady_expect _ _) fun _ =>
      grows_add _ _ (by simpa using holds)
  cases empty with
  | true => exact grows_none.bind (.pure none) following
  | false => exact (grows_optional onward grows _).bind ((onward _).map some) following

theorem grows_statement : GrowsTree tokens arena (statement read rounds) := by
  refine .after steady_peek fun token => ?_
  split
  · exact .after steady_skip fun _ => grows_functionDeclaration onward grows rounds
  · exact .after steady_skip fun _ => (grows _ _).bind (onward _) fun value _ _ holds =>
      .after (steady_expect _ _) fun _ => grows_add _ _ (by simpa using holds)
  · exact .after steady_skip fun _ => grows_branch onward grows token
  · exact .after steady_skip fun _ => grows_loop onward grows token
  · exact .after steady_skip fun _ => grows_giveBack onward grows token
  · exact .after steady_skip fun _ =>
      (grows_blockRest onward grows rounds).bind (onward_blockRest onward rounds)
        fun found _ _ hold => grows_add _ _ hold
  · exact (grows_expression onward grows rounds).bind (onward_expression onward rounds)
      fun value _ _ holds => .after (steady_expect _ _) fun _ =>
        grows_add _ _ (by simpa using holds)

theorem grows_rule (phrase : Phrase) : GrowsTree tokens arena (phrase.rule read rounds) := by
  cases phrase with
  | statement => exact grows_statement onward grows rounds
  | expression => exact grows_expression onward grows rounds
  | unary => exact grows_unary onward grows rounds

end Rules

/-- Whatever phrase is read, its index is that of a tree. -/
theorem grows_readWithin (count : Nat) (phrase : Phrase) (arena : Arena) :
    GrowsTree tokens arena (phrase.readWithin count) := by
  induction count generalizing phrase arena with
  | zero => exact .noExpression
  | succ count inductionHypothesis =>
      rw [funext (readWithin_succ count phrase)]
      exact grows_rule (onward_readWithin count) inductionHypothesis (count + 1) phrase

/-! ## Programs -/

/-- Before anything has been read, the whole sequence is left. -/
theorem Cursor.standsIn_start (tokens : Token.Sequence) (arena : Arena) (faults : Array Fault) :
    Cursor.StandsIn ⟨tokens.body, tokens.ending, arena, faults⟩ tokens :=
  ⟨List.suffix_refl _, rfl⟩

/-- Reading the declarations of a program looks up only what is there, and they are trees, or
lost. -/
theorem grows_declarations (tokens : Token.Sequence) (count : Nat) (arena : Arena) :
    GrowsTrees tokens arena
      (unfailing (declarationsBefore (Phrase.readWithin count) none count #[])) :=
  grows_declarationsBefore (onward_readWithin count) (grows_readWithin count) none count (by simp)

/-- While a program is read, whatever its tokens are, nothing is looked up that is not
there. -/
theorem inside_program (tokens : Token.Sequence) (count : Nat) (arena : Arena) :
    Inside tokens (unfailing (program count)) ⟨tokens.body, tokens.ending, arena, #[]⟩ := by
  have root : GrowsTree tokens arena (unfailing (program count)) := by
    rw [unfailing_program]
    exact (grows_declarations tokens count arena).bind
      (fun cursor => onward_declarationsBefore (onward_readWithin count) none count #[] cursor)
      fun found between _ hold => .after steady_peek fun token => grows_addNode hold
  exact (root _ (Cursor.standsIn_start tokens arena #[]) (Arena.le_refl _)).1

/-- The declarations of a program are trees, or lost. -/
theorem exists_allStandAt_readDeclarations (tokens : Token.Sequence) (arena : Arena) :
    ∃ trees : List Rose,
      Rose.AllStandAt (readDeclarations tokens arena).2.arena trees
        (readDeclarations tokens arena).1 := by
  have grows := grows_declarations tokens (levelsFor tokens.body.length) arena
  obtain ⟨-, hold⟩ := grows _ (Cursor.standsIn_start tokens arena #[]) (Arena.le_refl _)
  exact Arena.Holds.exists_allStandAt (hold _ _ rfl)

/-- The root of a program is the root of a tree, also when declarations were lost. -/
theorem exists_standsAt_readProgram
    {tokens : Token.Sequence}
    (closed : tokens.ending.kind = .endOfInput)
    (arena : Arena) :
    ∃ trees : List Rose,
      (Rose.node .statements tokens.ending none trees).StandsAt (readProgram tokens arena).arena
        (some (readProgram tokens arena).root) := by
  obtain ⟨trees, stand⟩ := exists_allStandAt_readDeclarations tokens arena
  rw [readProgram_eq closed arena]
  exact ⟨trees, Rose.standsAt_add stand⟩

end Tree
end Scripting
