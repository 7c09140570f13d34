import Scripting.Proofs.Reading.Moves

/-!
# Reading over other nodes, from other places and in other words

What a program reads depends neither on the nodes that the arena holds already nor on
the places and the texts of its tokens: the new nodes are those that an empty arena would
get, with their indices moved behind the old ones (`readProgram_eq_extended`), and the nodes
and the faults have the places and the texts of the tokens (`readProgram_reworded`).

`Relocates base words change work moved` says so of a part of the reading: `moved`, over
the nodes of `base` and with the places and the texts that `words` gives, does what `work`
does without them, and its value is changed by `change`.
-/

namespace Scripting

open Token (Span)

/-! ## Other places -/

/-- The token at another place. -/
def Token.placed (place : Span → Span) (token : Token) : Token :=
  { token with span := place token.span }

/-- The tokens at other places. -/
def Token.Sequence.placed (place : Span → Span) (tokens : Sequence) : Sequence where
  body := tokens.body.map (Token.placed place)
  ending := tokens.ending.placed place

/-- The fault at another place. -/
def Fault.placed (place : Span → Span) (fault : Fault) : Fault :=
  { fault with span := fault.span.map place }

/-! ## Other words -/

/-- Other places and other texts for tokens. -/
structure Rewording where
  place : Span → Span
  spell : String → String

/-- No other places and no other texts. -/
def Rewording.same : Rewording := ⟨id, id⟩

/-- Other places only. -/
def Rewording.ofPlace (place : Span → Span) : Rewording := ⟨place, id⟩

/-- No places, and no other texts. -/
def Rewording.placeless : Rewording := .ofPlace fun _ => .nowhere

/-- The token at another place, with another text. -/
def Token.reworded (words : Rewording) (token : Token) : Token :=
  { token with lexeme := words.spell token.lexeme, span := words.place token.span }

/-- The tokens at other places, with other texts. -/
def Token.Sequence.reworded (words : Rewording) (tokens : Sequence) : Sequence where
  body := tokens.body.map (Token.reworded words)
  ending := tokens.ending.reworded words

/-- The cause with the name in it replaced, if it has one. -/
def Cause.reworded (words : Rewording) : Cause → Cause
  | .undefinedVariable name => .undefinedVariable (words.spell name)
  | cause => cause

/-- The fault at another place, blamed on another text. -/
def Fault.reworded (words : Rewording) (fault : Fault) : Fault :=
  { fault with
    cause := fault.cause.reworded words
    span := fault.span.map words.place
    lexeme := fault.lexeme.map words.spell }

@[simp] theorem Token.reworded_kind (words : Rewording) (token : Token) :
    (token.reworded words).kind = token.kind := rfl

@[simp] theorem Token.reworded_same : Token.reworded .same = id := rfl

@[simp] theorem Fault.reworded_same : Fault.reworded .same = id := by
  funext ⟨cause, span, lexeme, line⟩
  cases cause <;> simp [Fault.reworded, Cause.reworded, Rewording.same]

theorem Fault.reworded_ofPlace (place : Span → Span) :
    Fault.reworded (.ofPlace place) = Fault.placed place := by
  funext ⟨cause, span, lexeme, line⟩
  cases cause <;> simp [Fault.reworded, Fault.placed, Cause.reworded, Rewording.ofPlace]

/-- A fault is blamed on the token with the other text. -/
theorem Fault.atToken_reworded (words : Rewording) (cause : Cause) (token : Token) :
    (Fault.atToken cause token).reworded words =
      Fault.atToken (cause.reworded words) (token.reworded words) := by
  by_cases ended : token.kind = .endOfInput <;>
    simp [Fault.reworded, Fault.atToken, Token.reworded, ended]

namespace Tree

open Token (Kind)

/-- The node with its token at another place. -/
def Node.placed (place : Span → Span) (node : Node) : Node :=
  { node with token := node.token.placed place }

/-- The node with its token at another place, with another text. -/
def Node.reworded (words : Rewording) (node : Node) : Node :=
  { node with token := node.token.reworded words }

/-- The arena with the tokens of its nodes at other places. -/
def Arena.placed (place : Span → Span) (arena : Arena) : Arena :=
  ⟨arena.nodes.map (Node.placed place)⟩

/-- The arena with the tokens of its nodes at other places, with other texts. -/
def Arena.reworded (words : Rewording) (arena : Arena) : Arena :=
  ⟨arena.nodes.map (Node.reworded words)⟩

@[simp] theorem Arena.reworded_same (arena : Arena) : arena.reworded .same = arena := by
  have same : Node.reworded .same = id := rfl
  simp [Arena.reworded, same]

@[simp] theorem Arena.reworded_empty (words : Rewording) : empty.reworded words = empty := by
  simp [Arena.reworded, empty]

theorem Arena.get?_reworded (words : Rewording) (arena : Arena) (id : NodeId) :
    (arena.reworded words).get? id = (arena.get? id).map (Node.reworded words) := by
  simp [Arena.reworded, get?]

theorem Arena.get?_placed (place : Span → Span) (arena : Arena) (id : NodeId) :
    (arena.placed place).get? id = (arena.get? id).map (Node.placed place) :=
  get?_reworded (.ofPlace place) arena id

theorem resume_reworded (words : Rewording) (tokens : List Token) :
    resume (tokens.map (Token.reworded words)) = (resume tokens).map (Token.reworded words) := by
  induction tokens with
  | nil => rfl
  | cons token rest inductionHypothesis =>
      cases rest with
      | nil =>
          simp only [List.map_cons, List.map_nil, resume, Token.reworded_kind]
          by_cases semicolon : token.kind = .semicolon <;> simp [semicolon]
      | cons next others =>
          simp only [List.map_cons] at inductionHypothesis ⊢
          rw [resume, resume]
          simp only [Token.reworded_kind, inductionHypothesis]
          split
          · rfl
          · split <;> rfl

/-! ## Behind other nodes -/

/-- An index behind `size` other nodes. -/
abbrev NodeId.behind (size : Nat) (id : NodeId) : NodeId :=
  id + size

/-- A node whose children are behind `size` other nodes. -/
def Node.behind (size : Nat) (node : Node) : Node :=
  { node with children := node.children.map (Option.map (NodeId.behind size)) }

namespace Arena

/-- The nodes of an arena behind those of another one. -/
def extended (base added : Arena) : Arena :=
  ⟨base.nodes ++ added.nodes.map (Node.behind base.size)⟩

@[simp] theorem extended_empty (base : Arena) : base.extended empty = base := by
  simp [extended, empty]

theorem size_extended (base added : Arena) :
    (base.extended added).size = added.size + base.size := by
  simp [extended, size, Nat.add_comm]

theorem nextId_extended (base added : Arena) :
    (base.extended added).nextId = added.nextId.behind base.size := by
  simp [extended, nextId, size, NodeId.behind, Nat.add_comm]

theorem nextId_reworded (words : Rewording) (arena : Arena) :
    (arena.reworded words).nextId = arena.nextId := by
  simp [reworded, nextId]

theorem add_extended (base added : Arena) (words : Rewording) (node : Node) :
    (base.extended (added.reworded words)).add ((node.reworded words).behind base.size) =
      base.extended ((added.add node).reworded words) := by
  simp [extended, reworded, add]

theorem size_reworded (words : Rewording) (arena : Arena) :
    (arena.reworded words).size = arena.size := by
  simp [reworded, size]

theorem reworded_extended (words : Rewording) (base added : Arena) :
    (base.extended added).reworded words =
      (base.reworded words).extended (added.reworded words) := by
  have commute : Node.reworded words ∘ Node.behind base.size =
      Node.behind base.size ∘ Node.reworded words := rfl
  simp only [extended, size_reworded]
  simp [reworded, commute]

/-- The old nodes are where they were. -/
theorem le_extended (base added : Arena) : base ≤ base.extended added := by
  change base.nodes.toList <+: (base.nodes ++ added.nodes.map (Node.behind base.size)).toList
  simp

theorem get?_extended_behind (base added : Arena) (id : NodeId) :
    (base.extended added).get? (id.behind base.size) =
      (added.get? id).map (Node.behind base.size) := by
  simp only [extended, get?, size, NodeId.behind]
  rw [Array.getElem?_append_right (Nat.le_add_left _ _), Nat.add_sub_cancel, Array.getElem?_map]

end Arena

/-- The cursor with its new nodes behind those of an arena. -/
def Cursor.extended (base : Arena) (cursor : Cursor) : Cursor :=
  { cursor with arena := base.extended cursor.arena }

/-- The cursor with its new nodes behind those of an arena, and its tokens at other places,
with other texts. -/
def Cursor.relocated (base : Arena) (words : Rewording) (cursor : Cursor) : Cursor where
  rest := cursor.rest.map (Token.reworded words)
  ending := cursor.ending.reworded words
  arena := base.extended (cursor.arena.reworded words)
  faults := cursor.faults.map (Fault.reworded words)

@[simp] theorem Cursor.relocated_same (base : Arena) (cursor : Cursor) :
    cursor.relocated base .same = cursor.extended base := by
  simp [Cursor.relocated, Cursor.extended]

theorem Cursor.current_relocated (base : Arena) (words : Rewording) (cursor : Cursor) :
    (cursor.relocated base words).current = cursor.current.reworded words := by
  obtain ⟨rest, ending, arena, faults⟩ := cursor
  cases rest <;> rfl

variable {α β γ δ : Type}

/-- What the moved reading ends with, given what the other one ends with. -/
def relocatedResult (base : Arena) (words : Rewording) (change : α → β) :
    EStateM.Result Fault Cursor α → EStateM.Result Fault Cursor β
  | .ok value cursor => .ok (change value) (cursor.relocated base words)
  | .error fault cursor => .error (fault.reworded words) (cursor.relocated base words)

/-- The one work does over the nodes of an arena, from other places and in other words, what
the other does without them. -/
def Relocates
    (base : Arena)
    (words : Rewording)
    (change : α → β)
    (work : Parse α)
    (moved : Parse β) : Prop :=
  ∀ cursor : Cursor,
    moved (cursor.relocated base words) = relocatedResult base words change (work cursor)

namespace Relocates

variable {base : Arena} {words : Rewording} {change : α → β}

theorem pure (value : α) :
    Relocates base words change (Pure.pure value) (Pure.pure (change value)) :=
  fun _ => rfl

/-- A fault without names in its cause is blamed on a token. -/
theorem blame
    {cause : Cause}
    (same : cause.reworded words = cause)
    (token : Token) :
    Relocates base words change (throw (Fault.atToken cause token))
      (throw (Fault.atToken cause (token.reworded words))) := by
  intro cursor
  conv => lhs; rw [← same, ← Fault.atToken_reworded]
  rfl

theorem bind
    {work : Parse α}
    {moved : Parse β}
    {changeNext : γ → δ}
    {next : α → Parse γ}
    {movedNext : β → Parse δ}
    (first : Relocates base words change work moved)
    (second : ∀ value, Relocates base words changeNext (next value) (movedNext (change value))) :
    Relocates base words changeNext (work >>= next) (moved >>= movedNext) := by
  intro cursor
  simp only [Bind.bind, EStateM.bind, first cursor]
  cases work cursor with
  | ok value between => exact second value between
  | error fault between => rfl

theorem map
    {work : Parse α}
    {moved : Parse β}
    {changeLast : γ → δ}
    (first : Relocates base words change work moved)
    (last : α → γ)
    (movedLast : β → δ)
    (same : ∀ value, movedLast (change value) = changeLast (last value)) :
    Relocates base words changeLast (last <$> work) (movedLast <$> moved) :=
  first.bind fun value => by
    rw [same]
    exact .pure (last value)

end Relocates

variable {base : Arena} {words : Rewording}

theorem relocates_peek : Relocates base words (Token.reworded words) peek peek := by
  intro cursor
  rw [peek, Cursor.current_relocated]
  rfl

theorem relocates_check (kind : Kind) : Relocates base words id (check kind) (check kind) := by
  rintro ⟨rest, ending, arena, faults⟩
  cases rest <;> rfl

theorem relocates_skip : Relocates base words id skip skip := by
  rintro ⟨rest, ending, arena, faults⟩
  cases rest <;> rfl

theorem relocates_acceptAny (wanted : List Kind) :
    Relocates base words (Option.map (Token.reworded words)) (acceptAny wanted)
      (acceptAny wanted) := by
  rintro ⟨rest, ending, arena, faults⟩
  cases rest with
  | nil => rfl
  | cons token rest =>
      simp only [acceptAny, Cursor.relocated, List.map_cons, Token.reworded_kind]
      by_cases member : token.kind ∈ wanted
      · simp [member, relocatedResult, Cursor.relocated]
      · simp [member, relocatedResult, Cursor.relocated]

theorem relocates_accept (kind : Kind) :
    Relocates base words (Option.map (Token.reworded words)) (accept kind) (accept kind) :=
  relocates_acceptAny [kind]

theorem relocates_expect (kind : Kind) (message : String) :
    Relocates base words (Token.reworded words) (expect kind message) (expect kind message) := by
  apply (relocates_accept kind).bind
  intro found
  cases found with
  | some token => exact .pure token
  | none => exact relocates_peek.bind fun token => .blame rfl token

theorem relocates_noExpression (change : α → β) :
    Relocates base words change (noExpression : Parse α) (noExpression : Parse β) :=
  relocates_peek.bind fun token => .blame rfl token

theorem relocates_addNode (node : Node) :
    Relocates base words (NodeId.behind base.size) (addNode node)
      (addNode ((node.reworded words).behind base.size)) := by
  intro cursor
  simp [addNode, relocatedResult, Cursor.relocated, Arena.nextId_extended, Arena.nextId_reworded,
    Arena.add_extended]

theorem relocates_add (kind : NodeKind) (token : Token) (children : List (Option NodeId)) :
    Relocates base words (NodeId.behind base.size) (add kind token children)
      (add kind (token.reworded words) (children.map (Option.map (NodeId.behind base.size)))) :=
  relocates_addNode ⟨kind, token, none, children⟩

theorem relocates_record
    {cause : Cause}
    (same : cause.reworded words = cause)
    (token : Token) :
    Relocates base words id (record (Fault.atToken cause token))
      (record (Fault.atToken cause (token.reworded words))) := by
  intro cursor
  have blamed := Fault.atToken_reworded words cause token
  rw [same] at blamed
  simp [record, relocatedResult, Cursor.relocated, blamed]

/-- Indices behind other nodes. -/
abbrev allBehind (base : Arena) (ids : List (Option NodeId)) : List (Option NodeId) :=
  ids.map (Option.map (NodeId.behind base.size))

theorem relocates_separated
    {item moved : Parse NodeId}
    (relocates : Relocates base words (NodeId.behind base.size) item moved)
    (rounds : Nat)
    (found : Array (Option NodeId)) :
    Relocates base words (fun all => (allBehind base all.toList).toArray)
      (separated item rounds found)
      (separated moved rounds (allBehind base found.toList).toArray) := by
  induction rounds generalizing found with
  | zero => exact .pure found
  | succ rounds inductionHypothesis =>
      apply relocates.bind
      intro id
      have pushed : (allBehind base found.toList).toArray.push (some (NodeId.behind base.size id)) =
          (allBehind base (found.push (some id)).toList).toArray := by
        simp
      simp only [pushed]
      apply (relocates_accept .comma).bind
      intro comma
      cases comma with
      | some _ => exact inductionHypothesis _
      | none => exact .pure _

theorem relocates_itemsBefore
    {item moved : Parse NodeId}
    (relocates : Relocates base words (NodeId.behind base.size) item moved)
    (closing : Kind)
    (rounds : Nat) :
    Relocates base words (allBehind base) (itemsBefore closing item rounds)
      (itemsBefore closing moved rounds) := by
  apply (relocates_check closing).bind
  intro closes
  cases closes with
  | true => exact .pure []
  | false => exact (relocates_separated relocates rounds #[]).bind fun all => .pure all.toList

section Rules

variable {read : Phrase → Parse NodeId}
  (relocates : ∀ phrase, Relocates base words (NodeId.behind base.size) (read phrase) (read phrase))
  (rounds : Nat)

include relocates

theorem relocates_primary :
    Relocates base words (NodeId.behind base.size) (primary read rounds) (primary read rounds) := by
  apply relocates_peek.bind
  intro token
  have sameConstant : constantOf? (token.reworded words) = constantOf? token := rfl
  simp only [sameConstant, Token.reworded_kind]
  cases constantOf? token with
  | some constant => exact relocates_skip.bind fun _ => relocates_addNode _
  | none =>
      dsimp only
      split
      · exact relocates_skip.bind fun _ => relocates_add _ _ _
      · exact relocates_skip.bind fun _ => (relocates _).bind fun inner =>
          (relocates_expect _ _).bind fun _ => relocates_add _ _ _
      · exact relocates_skip.bind fun _ =>
          (relocates_itemsBefore (relocates _) _ _).bind fun elements =>
          (relocates_expect _ _).bind fun _ => relocates_add _ _ _
      · exact relocates_noExpression _

theorem relocates_applications (remaining : Nat) (target : NodeId) :
    Relocates base words (NodeId.behind base.size) (applications read rounds remaining target)
      (applications read rounds remaining (target.behind base.size)) := by
  induction remaining generalizing target with
  | zero => exact .pure target
  | succ remaining inductionHypothesis =>
      apply (relocates_accept _).bind
      intro opening
      cases opening with
      | some _ =>
          exact (relocates_itemsBefore (relocates _) _ _).bind fun _ =>
            (relocates_expect _ _).bind fun _ => (relocates_add _ _ _).bind fun call =>
            inductionHypothesis call
      | none =>
          apply (relocates_accept _).bind
          intro bracket
          cases bracket with
          | some _ =>
              exact (relocates _).bind fun _ => (relocates_expect _ _).bind fun _ =>
                (relocates_add _ _ _).bind fun element => inductionHypothesis element
          | none => exact .pure target

theorem relocates_unary :
    Relocates base words (NodeId.behind base.size) (unary read rounds) (unary read rounds) := by
  apply (relocates_acceptAny _).bind
  intro operator
  cases operator with
  | some _ => exact (relocates _).bind fun _ => relocates_add _ _ _
  | none =>
      exact (relocates_primary relocates rounds).bind fun target =>
        relocates_applications relocates rounds rounds target

omit relocates in
theorem relocates_chain
    {level : Level}
    {operand : Parse NodeId}
    (operandRelocates : Relocates base words (NodeId.behind base.size) operand operand)
    (remaining : Nat)
    (left : NodeId) :
    Relocates base words (NodeId.behind base.size) (chain level operand remaining left)
      (chain level operand remaining (left.behind base.size)) := by
  induction remaining generalizing left with
  | zero => exact .pure left
  | succ remaining inductionHypothesis =>
      apply (relocates_acceptAny _).bind
      intro operator
      cases operator with
      | some _ =>
          exact operandRelocates.bind fun _ => (relocates_add _ _ _).bind fun joined =>
            inductionHypothesis joined
      | none => exact .pure left

theorem relocates_binary (levels : List Level) :
    Relocates base words (NodeId.behind base.size) (binary read rounds levels)
      (binary read rounds levels) := by
  induction levels with
  | nil => exact relocates_unary relocates rounds
  | cons level tighter inductionHypothesis =>
      exact inductionHypothesis.bind fun left => relocates_chain inductionHypothesis rounds left

theorem relocates_expression :
    Relocates base words (NodeId.behind base.size) (expression read rounds)
      (expression read rounds) := by
  refine (relocates_binary relocates rounds levels).bind fun target =>
    (relocates_accept _).bind fun equals => ?_
  cases equals with
  | none => exact .pure target
  | some equals =>
      apply (relocates _).bind
      intro value
      have lost : Relocates base words (NodeId.behind base.size)
          (do
            record (Fault.atToken .invalidAssignmentTarget equals)
            return target)
          (do
            record (Fault.atToken .invalidAssignmentTarget (equals.reworded words))
            return target.behind base.size) :=
        (relocates_record rfl equals).bind fun _ => .pure target
      intro cursor
      rw [get_bind, get_bind]
      have moved : (cursor.relocated base words).arena.get? (target.behind base.size) =
          ((cursor.arena.get? target).map (Node.reworded words)).map (Node.behind base.size) := by
        rw [← Arena.get?_reworded]
        exact Arena.get?_extended_behind base (cursor.arena.reworded words) target
      cases found : cursor.arena.get? target with
      | none =>
          rw [found, Option.map_none, Option.map_none] at moved
          simp only [moved]
          exact lost cursor
      | some node =>
          obtain ⟨kind, token, constant, children⟩ := node
          rw [found, Option.map_some, Option.map_some] at moved
          by_cases isVariable : kind = .variable
          · subst isVariable
            simp only [moved, Node.reworded, Node.behind]
            exact relocates_add .assignment token [some value] cursor
          · cases kind <;> first
              | exact absurd rfl isVariable
              | simp only [moved, Node.reworded, Node.behind]
                exact lost cursor

theorem relocates_variableDeclaration :
    Relocates base words (NodeId.behind base.size) (variableDeclaration read)
      (variableDeclaration read) := by
  refine (relocates_expect _ _).bind fun name => (relocates_accept _).bind fun equals => ?_
  have following : ∀ initializer : Option NodeId,
      Relocates base words (NodeId.behind base.size)
        (do
          let _ ← expect .semicolon "expected ';' after variable declaration"
          add .declaration name [initializer])
        (do
          let _ ← expect .semicolon "expected ';' after variable declaration"
          add .declaration (name.reworded words) [initializer.map (NodeId.behind base.size)]) :=
    fun initializer => (relocates_expect _ _).bind fun _ => relocates_add _ _ _
  cases equals with
  | some _ => exact ((relocates _).map some some fun _ => rfl).bind following
  | none => exact (Relocates.pure none).bind following

/-- A reading that cannot fail does over other nodes, from other places and in other words,
what it does without them. -/
def RelocatesState
    (base : Arena)
    (words : Rewording)
    (change : α → β)
    (work : StateM Cursor α)
    (moved : StateM Cursor β) : Prop :=
  ∀ cursor : Cursor, moved (cursor.relocated base words) =
    (change (work cursor).1, (work cursor).2.relocated base words)

omit relocates in
theorem relocates_recovering
    {work moved : Parse NodeId}
    (workRelocates : Relocates base words (NodeId.behind base.size) work moved) :
    RelocatesState base words (Option.map (NodeId.behind base.size)) (recovering work)
      (recovering moved) := by
  intro cursor
  simp only [recovering, workRelocates cursor]
  cases work cursor with
  | ok id between => rfl
  | error fault between => simp [relocatedResult, Cursor.relocated, resume_reworded]

theorem relocates_declaration :
    RelocatesState base words (Option.map (NodeId.behind base.size)) (declaration read)
      (declaration read) := by
  refine relocates_recovering ((relocates_accept _).bind fun word => ?_)
  cases word with
  | some _ => exact relocates_variableDeclaration relocates
  | none => exact relocates _

theorem relocates_declarationsBefore
    (closing : Option Kind)
    (remaining : Nat)
    (found : Array (Option NodeId))
    (cursor : Cursor) :
    declarationsBefore read closing remaining (allBehind base found.toList).toArray
        (cursor.relocated base words) =
      (allBehind base (declarationsBefore read closing remaining found cursor).1,
        (declarationsBefore read closing remaining found cursor).2.relocated base words) := by
  induction remaining generalizing found cursor with
  | zero => rfl
  | succ remaining inductionHypothesis =>
      have rest : (cursor.relocated base words).rest = cursor.rest.map (Token.reworded words) := rfl
      rw [declarationsBefore, declarationsBefore]
      cases front : cursor.rest with
      | nil => simp only [rest, front, List.map_nil]
      | cons token others =>
          by_cases closes : some token.kind = closing
          · simp only [rest, front, List.map_cons, Token.reworded_kind, closes, if_true]
          · have declared := relocates_declaration relocates cursor
            cases equation : declaration read cursor with
            | mk id between =>
                rw [equation] at declared
                simp only [rest, front, List.map_cons, Token.reworded_kind, closes, if_false,
                  declared, equation]
                have pushed := inductionHypothesis (found.push id) between
                simpa using pushed

theorem relocates_blockRest :
    Relocates base words (allBehind base) (blockRest read rounds) (blockRest read rounds) := by
  have found : Relocates base words (allBehind base)
      (unfailing (declarationsBefore read (some .rightBrace) rounds #[]))
      (unfailing (declarationsBefore read (some .rightBrace) rounds #[])) := by
    intro cursor
    have same := relocates_declarationsBefore relocates (some .rightBrace) rounds #[] cursor
    simp only [List.map_nil] at same
    simp only [unfailing, same]
    rfl
  exact found.bind fun ids => (relocates_expect _ _).bind fun _ => .pure ids

omit relocates in
theorem relocates_parameter : Relocates base words (NodeId.behind base.size) parameter parameter :=
  (relocates_expect _ _).bind fun _ => relocates_add _ _ _

theorem relocates_functionDeclaration :
    Relocates base words (NodeId.behind base.size) (functionDeclaration read rounds)
      (functionDeclaration read rounds) := by
  refine (relocates_expect _ _).bind fun name => (relocates_expect _ _).bind fun _ =>
    (relocates_itemsBefore relocates_parameter _ _).bind fun parameters =>
    (relocates_expect _ _).bind fun _ => (relocates_expect _ _).bind fun brace =>
    (relocates_blockRest relocates rounds).bind fun found =>
    (relocates_add _ _ _).bind fun body => ?_
  have added : Relocates base words (NodeId.behind base.size)
      (add .function name (parameters ++ [some body]))
      (add .function (name.reworded words) (allBehind base (parameters ++ [some body]))) :=
    relocates_add _ _ _
  simpa using added

theorem relocates_branch (keyword : Token) :
    Relocates base words (NodeId.behind base.size) (branch read keyword)
      (branch read (keyword.reworded words)) := by
  refine (relocates_expect _ _).bind fun _ => (relocates _).bind fun condition =>
    (relocates_expect _ _).bind fun _ => (relocates _).bind fun consequence =>
    (relocates_accept _).bind fun other => ?_
  have following : ∀ alternative : Option NodeId,
      Relocates base words (NodeId.behind base.size)
        (add .branch keyword [some condition, some consequence, alternative])
        (add .branch (keyword.reworded words) [some (condition.behind base.size),
          some (consequence.behind base.size), alternative.map (NodeId.behind base.size)]) :=
    fun alternative => relocates_add _ _ _
  cases other with
  | some _ => exact ((relocates _).map some some fun _ => rfl).bind following
  | none => exact (Relocates.pure none).bind following

theorem relocates_loop (keyword : Token) :
    Relocates base words (NodeId.behind base.size) (loop read keyword)
      (loop read (keyword.reworded words)) :=
  (relocates_expect _ _).bind fun _ => (relocates _).bind fun _ =>
    (relocates_expect _ _).bind fun _ => (relocates _).bind fun _ => relocates_add _ _ _

theorem relocates_giveBack (keyword : Token) :
    Relocates base words (NodeId.behind base.size) (giveBack read keyword)
      (giveBack read (keyword.reworded words)) := by
  apply (relocates_check _).bind
  intro empty
  have following : ∀ value : Option NodeId,
      Relocates base words (NodeId.behind base.size)
        (do
          let _ ← expect .semicolon "expected ';' after return value"
          add .giveBack keyword [value])
        (do
          let _ ← expect .semicolon "expected ';' after return value"
          add .giveBack (keyword.reworded words) [value.map (NodeId.behind base.size)]) :=
    fun value => (relocates_expect _ _).bind fun _ => relocates_add _ _ _
  cases empty with
  | true => exact (Relocates.pure none).bind following
  | false => exact ((relocates _).map some some fun _ => rfl).bind following

theorem relocates_statement :
    Relocates base words (NodeId.behind base.size) (statement read rounds)
      (statement read rounds) := by
  apply relocates_peek.bind
  intro token
  simp only [Token.reworded_kind]
  split
  · exact relocates_skip.bind fun _ => relocates_functionDeclaration relocates rounds
  · exact relocates_skip.bind fun _ => (relocates _).bind fun _ =>
      (relocates_expect _ _).bind fun _ => relocates_add _ _ _
  · exact relocates_skip.bind fun _ => relocates_branch relocates token
  · exact relocates_skip.bind fun _ => relocates_loop relocates token
  · exact relocates_skip.bind fun _ => relocates_giveBack relocates token
  · exact relocates_skip.bind fun _ => (relocates_blockRest relocates rounds).bind fun _ =>
      relocates_add _ _ _
  · exact (relocates_expression relocates rounds).bind fun _ => (relocates_expect _ _).bind fun _ =>
      relocates_add _ _ _

theorem relocates_rule (phrase : Phrase) :
    Relocates base words (NodeId.behind base.size) (phrase.rule read rounds)
      (phrase.rule read rounds) := by
  cases phrase with
  | statement => exact relocates_statement relocates rounds
  | expression => exact relocates_expression relocates rounds
  | unary => exact relocates_unary relocates rounds

end Rules

theorem relocates_readWithin
    (base : Arena)
    (words : Rewording)
    (count : Nat)
    (phrase : Phrase) :
    Relocates base words (NodeId.behind base.size) (phrase.readWithin count)
      (phrase.readWithin count) := by
  induction count generalizing phrase with
  | zero => exact relocates_noExpression _
  | succ count inductionHypothesis =>
      intro cursor
      rw [readWithin_succ, readWithin_succ]
      exact relocates_rule inductionHypothesis (count + 1) phrase cursor

mutual

/-- A tree stands where its nodes were moved to. -/
theorem Rose.StandsAt.extended {base added : Arena} :
    ∀ {tree : Rose} {id : Option NodeId}, tree.StandsAt added id →
      tree.StandsAt (base.extended added) (id.map (NodeId.behind base.size))
  | .absent, id, stands => by
      rw [Rose.standsAt_absent] at stands
      simp [stands]
  | .node kind token constant children, id, stands => by
      obtain ⟨index, ids, rfl, found, below⟩ := (Rose.standsAt_node ..).mp stands
      refine (Rose.standsAt_node ..).mpr ⟨index.behind base.size, allBehind base ids, rfl, ?_,
        Rose.AllStandAt.extended below⟩
      rw [Arena.get?_extended_behind, found]
      rfl

theorem Rose.AllStandAt.extended {base added : Arena} :
    ∀ {trees : List Rose} {ids : List (Option NodeId)}, Rose.AllStandAt added trees ids →
      Rose.AllStandAt (base.extended added) trees (allBehind base ids)
  | [], ids, stand => by
      rw [Rose.allStandAt_nil] at stand
      simp [stand]
  | tree :: trees, ids, stand => by
      obtain ⟨id, others, rfl, stands, below⟩ := (Rose.allStandAt_cons ..).mp stand
      exact (Rose.allStandAt_cons_cons ..).mpr
        ⟨Rose.StandsAt.extended stands, Rose.AllStandAt.extended below⟩

end

/-- A program is read into any arena, from any places and in any words, as it is read into an
empty one. -/
theorem readProgram_relocated (words : Rewording) (tokens : Token.Sequence) (base : Arena) :
    readProgram (tokens.reworded words) base =
      { root := (readProgram tokens .empty).root.behind base.size
        arena := base.extended ((readProgram tokens .empty).arena.reworded words)
        faults := (readProgram tokens .empty).faults.map (Fault.reworded words) } := by
  have moved : Cursor.relocated base words ⟨tokens.body, tokens.ending, .empty, #[]⟩ =
      ⟨(tokens.reworded words).body, (tokens.reworded words).ending, base, #[]⟩ := by
    simp [Cursor.relocated, Token.Sequence.reworded]
  have same := relocates_declarationsBefore
    (fun phrase => relocates_readWithin base words (levelsFor tokens.body.length) phrase) none
    (levelsFor tokens.body.length) #[] ⟨tokens.body, tokens.ending, .empty, #[]⟩
  have length : (tokens.reworded words).body.length = tokens.body.length := List.length_map ..
  rw [moved] at same
  simp only [List.map_nil] at same
  cases equation : declarationsBefore (Phrase.readWithin (levelsFor tokens.body.length)) none
      (levelsFor tokens.body.length) #[] ⟨tokens.body, tokens.ending, .empty, #[]⟩ with
  | mk found later =>
      rw [equation] at same
      have added := Arena.add_extended base later.arena words
        ⟨.statements, later.current, none, found⟩
      simp only [readProgram, program, length, same, equation, ← added,
        Cursor.current_relocated]
      simp only [Cursor.relocated, Arena.nextId_extended, Arena.nextId_reworded,
        Array.toList_map]
      rfl

/-- A program is read into any arena as it is read into an empty one. -/
theorem readProgram_eq_extended (tokens : Token.Sequence) (base : Arena) :
    readProgram tokens base =
      { root := (readProgram tokens .empty).root.behind base.size
        arena := base.extended (readProgram tokens .empty).arena
        faults := (readProgram tokens .empty).faults } := by
  simpa [Token.Sequence.reworded] using readProgram_relocated .same tokens base

/-- The program with its tokens at other places. -/
def Program.placed (place : Span → Span) (program : Program) : Program where
  root := program.root
  arena := program.arena.placed place
  faults := program.faults.map (Fault.placed place)

/-- The program with its tokens at other places, with other texts. -/
def Program.reworded (words : Rewording) (program : Program) : Program where
  root := program.root
  arena := program.arena.reworded words
  faults := program.faults.map (Fault.reworded words)

/-- A program that is read in other words is the same but for the words. -/
theorem readProgram_reworded (words : Rewording) (tokens : Token.Sequence) (base : Arena) :
    readProgram (tokens.reworded words) (base.reworded words) =
      (readProgram tokens base).reworded words := by
  rw [readProgram_relocated, readProgram_eq_extended tokens base, Program.reworded,
    Arena.reworded_extended, Arena.size_reworded]

/-- A program that is read from other places is the same but for the places. -/
theorem readProgram_placed (place : Span → Span) (tokens : Token.Sequence) (base : Arena) :
    readProgram (tokens.placed place) (base.placed place) =
      (readProgram tokens base).placed place := by
  have reworded := readProgram_reworded (.ofPlace place) tokens base
  rwa [Program.reworded, Fault.reworded_ofPlace] at reworded

/-- The faults of a program do not depend on the arena it is read into. -/
theorem readProgram_faults (tokens : Token.Sequence) (base : Arena) :
    (readProgram tokens base).faults = (readProgram tokens .empty).faults := by
  rw [readProgram_eq_extended]

/-- Reading a program only adds nodes. -/
theorem le_readProgram (tokens : Token.Sequence) (arena : Arena) :
    arena ≤ (readProgram tokens arena).arena := by
  rw [readProgram_eq_extended]
  exact Arena.le_extended _ _

end Tree
end Scripting
