import Scripting.Proofs.Reading.Moves
import Scripting.Proofs.Syntax.Grammar

/-!
# Reading expressions

Every expression of the grammar is read as what it is: from the tokens of a
derivation, and before a token that cannot go on with it, reading gives the index
of its layout (`readAs_of_derives`).

The loops for operators and for calls join what they find to the left operand, and
so does the grammar; `GoesOn` says that the tokens of a derivation bring a reading
to a further round of its loop.
-/

namespace Scripting
namespace Tree

open Token (Kind)
open Expression (Form Derives)

namespace Strength

/-- The kind of node that the operators of a strength make. -/
def joined : Strength → NodeKind
  | disjunction | conjunction => .logical
  | equality | comparison | sum | product => .binary

/-- The level at which the operators of a strength are read. -/
def level (strength : Strength) : Level :=
  ⟨strength.operators, strength.joined⟩

theorem levels_eq : levels = all.map level := rfl

theorem rose_join
    (strength : Strength)
    (operator : Token)
    (left right : Expression) :
    (strength.join operator left right).rose =
      .node strength.joined operator none [left.rose, right.rose] := by
  cases strength <;> simp [join, joined, Expression.rose]

end Strength

namespace Expression

/-- The expression stands at an index. -/
def At (expression : Expression) (arena : Arena) (id : NodeId) : Prop :=
  expression.rose.StandsAt arena (some id)

/-- The expressions stand at indices. -/
def AllAt (expressions : List Expression) (arena : Arena) (ids : List (Option NodeId)) : Prop :=
  Rose.AllStandAt arena (roses expressions) ids

@[simp] theorem allAt_nil (arena : Arena) (ids : List (Option NodeId)) :
    AllAt [] arena ids ↔ ids = [] := by
  simp [AllAt]

@[simp] theorem allAt_cons
    (expression : Expression)
    (others : List Expression)
    (arena : Arena)
    (id : NodeId)
    (ids : List (Option NodeId)) :
    AllAt (expression :: others) arena (some id :: ids) ↔
      expression.At arena id ∧ AllAt others arena ids := by
  simp [AllAt, At]

theorem At.mono
    {expression : Expression}
    {arena later : Arena}
    {id : NodeId}
    (stands : expression.At arena id)
    (before : arena ≤ later) :
    expression.At later id :=
  Rose.StandsAt.mono before stands

/-- The kinds of the operators of the given strengths, and of what follows a primary
expression. -/
def operatorKinds (strengths : List Strength) : List Kind :=
  strengths.flatMap Strength.operators ++ [.leftParen, .leftBracket]

/-- The kinds of the tokens that go on with a phrase of a form. -/
def Form.extensions : Form → List Kind
  | .full => .equal :: operatorKinds Strength.all
  | .operation strengths => operatorKinds strengths
  | .unary => operatorKinds []
  | .application => operatorKinds []
  | .primary => []
  | .arguments => .comma :: .equal :: operatorKinds Strength.all
  | .items => .comma :: .equal :: operatorKinds Strength.all

/-- The next token, if there is one, does not go on with a phrase of the form. -/
def Form.Stops (form : Form) (rest : List Token) : Prop :=
  ∀ token ∈ rest.head?, token.kind ∉ form.extensions

theorem Form.Stops.of_subset
    {form other : Form}
    {rest : List Token}
    (stops : form.Stops rest)
    (fewer : other.extensions ⊆ form.extensions) :
    other.Stops rest :=
  fun token head member => stops token head (fewer member)

theorem Form.stops_cons
    {form : Form}
    {token : Token}
    {rest : List Token} :
    form.Stops (token :: rest) ↔ token.kind ∉ form.extensions := by
  simp [Form.Stops]

/-- An expression ends before a token that closes, separates or ends. -/
theorem Form.stops_of_mem
    {token : Token}
    {rest : List Token}
    (closes : token.kind ∈ [Kind.rightParen, .rightBracket, .comma, .semicolon]) :
    Form.full.Stops (token :: rest) := by
  rw [Form.stops_cons]
  simp only [List.mem_cons, List.not_mem_nil, or_false] at closes
  rcases closes with kind | kind | kind | kind <;> rw [kind] <;> decide

end Expression

variable {read : Phrase → Parse NodeId} {rounds count : Nat}

/-- The readers of expressions and operands read what has at most `count` tokens. -/
structure ReadsExpressions (read : Phrase → Parse NodeId) (count : Nat) : Prop where
  expression {input rest : List Token} {tree : Expression} :
    Derives .full input rest tree → input.length ≤ count → Form.full.Stops rest →
      Reads (read .expression) input rest tree.At
  unary {input rest : List Token} {tree : Expression} :
    Derives .unary input rest tree → input.length ≤ count → Form.unary.Stops rest →
      Reads (read .unary) input rest tree.At

/-! ## Primary expressions -/

theorem constantOf?_of_spelledBy
    {token : Token}
    {value : Constant}
    (spelled : value.SpelledBy token) :
    constantOf? token = some value := by
  cases spelled with
  | null kind => simp [constantOf?, kind]
  | truth kind => simp [constantOf?, kind]
  | falsehood kind => simp [constantOf?, kind]
  | literal kind held => rcases kind with kind | kind <;> simp [constantOf?, kind, held]

theorem reads_constant
    {token : Token}
    {value : Constant}
    (spelled : value.SpelledBy token)
    (rest : List Token) :
    Reads (primary read rounds) (token :: rest) rest (Expression.constant token value).At := by
  intro ending arena faults
  refine exists_of_addNode ?_ (Arena.le_refl _) ((Rose.allStandAt_nil _).mpr rfl)
  unfold primary
  rw [bind_of_ok (peek_cons ..)]
  simp only [constantOf?_of_spelledBy spelled]
  rw [bind_of_ok (skip_cons ..)]

theorem reads_mention
    {name : Token}
    (named : name.kind = .identifier)
    (rest : List Token) :
    Reads (primary read rounds) (name :: rest) rest (Expression.mention name).At := by
  intro ending arena faults
  refine exists_of_addNode ?_ (Arena.le_refl _) ((Rose.allStandAt_nil _).mpr rfl)
  unfold primary
  rw [bind_of_ok (peek_cons ..)]
  simp only [constantOf?, named]
  rw [bind_of_ok (skip_cons ..)]
  rfl

theorem reads_group
    {opening closing : Token}
    {input rest : List Token}
    {inner : Expression}
    (opens : opening.kind = .leftParen)
    (inside : Reads (read .expression) input (closing :: rest) inner.At)
    (closes : closing.kind = .rightParen) :
    Reads (primary read rounds) (opening :: input) rest (Expression.group opening inner).At := by
  intro ending arena faults
  obtain ⟨id, later, before, stands, ends⟩ := inside ending arena faults
  refine exists_of_addNode ?_ before ((Rose.allStandAt_singleton _ _).mpr ⟨some id, rfl, stands⟩)
  unfold primary
  rw [bind_of_ok (peek_cons ..)]
  simp only [constantOf?, opens]
  rw [bind_of_ok (skip_cons ..), bind_of_ok ends, bind_of_ok (expect_of_eq _ _ _ _ _ closes)]
  rfl

theorem reads_array
    {opening closing : Token}
    {input rest : List Token}
    {elements : List Expression}
    (opens : opening.kind = .leftBracket)
    (inside : Reads (itemsBefore .rightBracket (read .expression) rounds) input (closing :: rest)
      (Expression.AllAt elements))
    (closes : closing.kind = .rightBracket) :
    Reads (primary read rounds) (opening :: input) rest
      (Expression.array opening elements).At := by
  intro ending arena faults
  obtain ⟨ids, later, before, stand, ends⟩ := inside ending arena faults
  refine exists_of_addNode ?_ before stand
  unfold primary
  rw [bind_of_ok (peek_cons ..)]
  simp only [constantOf?, opens]
  rw [bind_of_ok (skip_cons ..), bind_of_ok ends, bind_of_ok (expect_of_eq _ _ _ _ _ closes)]
  rfl

/-! ## What stands between commas -/

theorem reads_separated_last
    {item : Parse NodeId}
    {input rest : List Token}
    {holds : Arena → NodeId → Prop}
    (only : Reads item input rest holds)
    (last : ∀ token ∈ rest.head?, token.kind ≠ .comma)
    (remaining : Nat)
    (found : Array (Option NodeId)) :
    Reads (separated item (remaining + 1) found) input rest fun arena all =>
      ∃ id, all = found.push (some id) ∧ holds arena id := by
  intro ending arena faults
  obtain ⟨id, later, before, holding, ends⟩ := only ending arena faults
  refine ⟨found.push (some id), later, before, ⟨id, rfl, holding⟩, ?_⟩
  unfold separated
  rw [bind_of_ok ends, bind_of_ok (accept_of_ne _ _ _ last)]
  rfl

theorem reads_separated_more
    {item : Parse NodeId}
    {comma : Token}
    {input middle rest : List Token}
    {holds : Arena → NodeId → Prop}
    {remaining : Nat}
    {found : Array (Option NodeId)}
    {others : Array (Option NodeId) → Arena → Array (Option NodeId) → Prop}
    (first : Reads item input (comma :: middle) holds)
    (separates : comma.kind = .comma)
    (following : ∀ found, Reads (separated item remaining found) middle rest (others found)) :
    Reads (separated item (remaining + 1) found) input rest fun arena all =>
      ∃ id earlier, earlier ≤ arena ∧ holds earlier id ∧
        others (found.push (some id)) arena all := by
  intro ending arena faults
  obtain ⟨id, middleArena, before, holding, ends⟩ := first ending arena faults
  obtain ⟨all, later, after, holdingOthers, othersEnd⟩ :=
    following (found.push (some id)) ending middleArena faults
  refine ⟨all, later, Arena.le_trans before after, ⟨id, middleArena, after, holding,
    holdingOthers⟩, ?_⟩
  unfold separated
  rw [bind_of_ok ends, bind_of_ok (accept_of_eq _ _ _ _ separates)]
  exact othersEnd

theorem reads_itemsBefore_nothing
    {closing : Token}
    {kind : Kind}
    (closes : closing.kind = kind)
    (item : Parse NodeId)
    (rest : List Token) :
    Reads (itemsBefore kind item rounds) (closing :: rest) (closing :: rest)
      fun _ ids => ids = [] := by
  intro ending arena faults
  refine ⟨[], arena, Arena.le_refl _, rfl, ?_⟩
  unfold itemsBefore
  rw [bind_of_ok (check_of_eq _ _ _ _ closes)]
  rfl

theorem reads_itemsBefore_listed
    {item : Parse NodeId}
    {kind : Kind}
    {first : Token}
    {input rest : List Token}
    {holds : Arena → Array (Option NodeId) → Prop}
    (different : first.kind ≠ kind)
    (items : Reads (separated item rounds #[]) (first :: input) rest holds) :
    Reads (itemsBefore kind item rounds) (first :: input) rest
      fun arena ids => holds arena ids.toArray := by
  intro ending arena faults
  obtain ⟨all, later, before, holding, ends⟩ := items ending arena faults
  refine ⟨all.toList, later, before, by simpa using holding, ?_⟩
  unfold itemsBefore
  rw [bind_of_ok (check_of_ne _ _ _ _ different)]
  simp only [Bool.false_eq_true, if_false]
  rw [bind_of_ok ends]
  rfl

/-! ## Loops -/

/-- The work takes the tokens of `input` before `rest` and goes on with `next`, to
which it leaves a round for every other token. -/
def GoesOn
    (work : Parse NodeId)
    (next : Nat → NodeId → Parse NodeId)
    (rounds : Nat)
    (input rest : List Token)
    (holds : Arena → NodeId → Prop) : Prop :=
  ∀ ending arena faults, ∃ remaining id later,
    rounds + rest.length ≤ remaining + input.length ∧ arena ≤ later ∧ holds later id ∧
      work ⟨input, ending, arena, faults⟩ = next remaining id ⟨rest, ending, later, faults⟩

/-- A first reading brings the whole to the first round of its loop. -/
theorem Reads.goesOn
    {work : Parse NodeId}
    {input rest : List Token}
    {holds : Arena → NodeId → Prop}
    (first : Reads work input rest holds)
    (next : Nat → NodeId → Parse NodeId)
    (shorter : rest.length ≤ input.length) :
    GoesOn (work >>= next rounds) next rounds input rest holds := by
  intro ending arena faults
  obtain ⟨id, later, before, holding, ends⟩ := first ending arena faults
  exact ⟨rounds, id, later, by omega, before, holding, bind_of_ok ends⟩

theorem goesOn_call
    {work : Parse NodeId}
    {opening closing : Token}
    {input middle rest : List Token}
    {callee : Expression}
    {arguments : List Expression}
    (target : GoesOn work (applications read rounds) rounds input (opening :: middle) callee.At)
    (opens : opening.kind = .leftParen)
    (inside : Reads (itemsBefore .rightParen (read .expression) rounds) middle (closing :: rest)
      (Expression.AllAt arguments))
    (closes : closing.kind = .rightParen)
    (enough : input.length ≤ rounds)
    (shorter : rest.length ≤ middle.length) :
    GoesOn work (applications read rounds) rounds input rest
      (Expression.call closing callee arguments).At := by
  intro ending arena faults
  obtain ⟨remaining, id, between, left, before, stands, goes⟩ := target ending arena faults
  obtain ⟨ids, later, after, stand, ends⟩ := inside ending between faults
  rw [List.length_cons] at left
  obtain ⟨remaining, rfl⟩ : ∃ fewer, remaining = fewer + 1 := ⟨remaining - 1, by omega⟩
  refine ⟨remaining, later.nextId, later.add ⟨.call, closing, none, some id :: ids⟩, by omega,
    Arena.le_trans before (Arena.le_trans after (later.le_add _)), ?_, ?_⟩
  · exact Rose.standsAt_add ((Rose.allStandAt_cons_cons ..).mpr ⟨stands.mono after, stand⟩)
  · rw [goes, applications, bind_of_ok (accept_of_eq _ _ _ _ opens)]
    simp only
    rw [bind_of_ok ends, bind_of_ok (expect_of_eq _ _ _ _ _ closes)]
    rfl

theorem goesOn_index
    {work : Parse NodeId}
    {opening closing : Token}
    {input middle rest : List Token}
    {callee position : Expression}
    (target : GoesOn work (applications read rounds) rounds input (opening :: middle) callee.At)
    (opens : opening.kind = .leftBracket)
    (inside : Reads (read .expression) middle (closing :: rest) position.At)
    (closes : closing.kind = .rightBracket)
    (enough : input.length ≤ rounds)
    (shorter : rest.length ≤ middle.length) :
    GoesOn work (applications read rounds) rounds input rest
      (Expression.index closing callee position).At := by
  intro ending arena faults
  obtain ⟨remaining, id, between, left, before, stands, goes⟩ := target ending arena faults
  obtain ⟨positionId, later, after, stand, ends⟩ := inside ending between faults
  rw [List.length_cons] at left
  obtain ⟨remaining, rfl⟩ : ∃ fewer, remaining = fewer + 1 := ⟨remaining - 1, by omega⟩
  refine ⟨remaining, later.nextId,
    later.add ⟨.index, closing, none, [some id, some positionId]⟩, by omega,
    Arena.le_trans before (Arena.le_trans after (later.le_add _)), ?_, ?_⟩
  · exact Rose.standsAt_add
      ((Rose.allStandAt_pair ..).mpr ⟨_, _, rfl, stands.mono after, stand⟩)
  · have noCall : ∀ token ∈ (opening :: middle).head?, token.kind ≠ Kind.leftParen := by
      simp [opens]
    rw [goes, applications, bind_of_ok (accept_of_ne _ _ _ noCall)]
    simp only
    rw [bind_of_ok (accept_of_eq _ _ _ _ opens)]
    simp only
    rw [bind_of_ok ends, bind_of_ok (expect_of_eq _ _ _ _ _ closes)]
    rfl

theorem goesOn_joined
    {work operand : Parse NodeId}
    {strength : Strength}
    {operator : Token}
    {input middle rest : List Token}
    {left right : Expression}
    (first : GoesOn work (chain strength.level operand) rounds input (operator :: middle) left.At)
    (member : operator.kind ∈ strength.operators)
    (second : Reads operand middle rest right.At)
    (enough : input.length ≤ rounds)
    (shorter : rest.length ≤ middle.length) :
    GoesOn work (chain strength.level operand) rounds input rest
      (strength.join operator left right).At := by
  intro ending arena faults
  obtain ⟨remaining, id, between, rounds_le, before, stands, goes⟩ := first ending arena faults
  obtain ⟨rightId, later, after, stand, ends⟩ := second ending between faults
  rw [List.length_cons] at rounds_le
  obtain ⟨remaining, rfl⟩ : ∃ fewer, remaining = fewer + 1 := ⟨remaining - 1, by omega⟩
  refine ⟨remaining, later.nextId,
    later.add ⟨strength.joined, operator, none, [some id, some rightId]⟩, by omega,
    Arena.le_trans before (Arena.le_trans after (later.le_add _)), ?_, ?_⟩
  · unfold Expression.At
    rw [Strength.rose_join]
    exact Rose.standsAt_add
      ((Rose.allStandAt_pair ..).mpr ⟨_, _, rfl, stands.mono after, stand⟩)
  · have accepted := acceptAny_of_mem middle ending between faults
      (show operator.kind ∈ strength.level.operators from member)
    rw [goes, chain, bind_of_ok accepted]
    simp only
    rw [bind_of_ok ends]
    rfl

/-- A loop for calls ends before a token that opens none. -/
theorem GoesOn.reads_applications
    {work : Parse NodeId}
    {input rest : List Token}
    {holds : Arena → NodeId → Prop}
    (goesOn : GoesOn work (applications read rounds) rounds input rest holds)
    (stops : Form.application.Stops rest) :
    Reads work input rest holds := by
  intro ending arena faults
  obtain ⟨remaining, id, later, -, before, holding, goes⟩ := goesOn ending arena faults
  refine ⟨id, later, before, holding, ?_⟩
  rw [goes]
  have noCall : ∀ token ∈ rest.head?, token.kind ≠ Kind.leftParen := fun token head same =>
    stops token head (by simp [Form.extensions, Expression.operatorKinds, same])
  have noIndex : ∀ token ∈ rest.head?, token.kind ≠ Kind.leftBracket := fun token head same =>
    stops token head (by simp [Form.extensions, Expression.operatorKinds, same])
  cases remaining with
  | zero => rfl
  | succ remaining =>
      rw [applications, bind_of_ok (accept_of_ne _ _ _ noCall)]
      simp only
      rw [bind_of_ok (accept_of_ne _ _ _ noIndex)]
      rfl

/-- A loop for operators ends before a token that is none of them. -/
theorem GoesOn.reads_chain
    {work operand : Parse NodeId}
    {level : Level}
    {input rest : List Token}
    {holds : Arena → NodeId → Prop}
    (goesOn : GoesOn work (chain level operand) rounds input rest holds)
    (stops : ∀ token ∈ rest.head?, token.kind ∉ level.operators) :
    Reads work input rest holds := by
  intro ending arena faults
  obtain ⟨remaining, id, later, -, before, holding, goes⟩ := goesOn ending arena faults
  refine ⟨id, later, before, holding, ?_⟩
  rw [goes]
  cases remaining with
  | zero => rfl
  | succ remaining =>
      rw [chain, bind_of_ok (acceptAny_of_not_mem _ _ _ stops)]
      rfl

/-! ## Every form -/

namespace Expression

/-- What the reader of a form makes of a phrase with at most one token more than
`count`. A list between commas is read only after the token that opens it. -/
def ReadAs (read : Phrase → Parse NodeId) (rounds count : Nat) :
    (form : Form) → List Token → List Token → form.Tree → Prop
  | .full, input, rest, tree =>
      input.length ≤ count + 1 → Form.full.Stops rest →
        Reads (Tree.expression read rounds) input rest tree.At
  | .operation [], input, rest, tree =>
      input.length ≤ count + 1 → Form.unary.Stops rest →
        Reads (Tree.unary read rounds) input rest tree.At
  | .operation (strength :: tighter), input, rest, tree =>
      input.length ≤ count + 1 → (strength :: tighter).Nodup →
        (Form.operation tighter).Stops rest →
        GoesOn (Tree.binary read rounds ((strength :: tighter).map Strength.level))
          (chain strength.level (Tree.binary read rounds (tighter.map Strength.level)))
          rounds input rest tree.At
  | .unary, input, rest, tree =>
      input.length ≤ count + 1 → Form.unary.Stops rest →
        Reads (Tree.unary read rounds) input rest tree.At
  | .application, input, rest, tree =>
      input.length ≤ count + 1 →
        GoesOn (primary read rounds >>= applications read rounds rounds)
          (applications read rounds) rounds input rest tree.At
  | .primary, input, rest, tree =>
      input.length ≤ count + 1 → Reads (primary read rounds) input rest tree.At
  | .arguments, input, rest, trees =>
      input.length ≤ count → ∀ closing others, rest = closing :: others →
        closing.kind ∈ [Kind.rightParen, .rightBracket] →
        Reads (itemsBefore closing.kind (read .expression) rounds) input rest (AllAt trees)
  | .items, input, rest, trees =>
      input.length ≤ count → Form.items.Stops rest →
        ∀ remaining found, input.length ≤ remaining →
        Reads (separated (read .expression) remaining found) input rest fun arena all =>
          ∃ ids, all = found ++ ids.toArray ∧ AllAt trees arena ids

/-- Operands and operators are read as a whole before a token that is no operator of
theirs. -/
theorem ReadAs.reads_operation
    {strengths : List Strength}
    {input rest : List Token}
    {tree : Expression}
    (readAs : ReadAs read rounds count (.operation strengths) input rest tree)
    (bound : input.length ≤ count + 1)
    (nodup : strengths.Nodup)
    (stops : (Form.operation strengths).Stops rest) :
    Reads (Tree.binary read rounds (strengths.map Strength.level)) input rest tree.At := by
  cases strengths with
  | nil => exact readAs bound stops
  | cons strength tighter =>
      have stopsTighter : (Form.operation tighter).Stops rest :=
        stops.of_subset (by simp [Form.extensions, operatorKinds])
      apply (readAs bound nodup stopsTighter).reads_chain
      intro token head member
      exact stops token head (List.mem_append_left _ (List.mem_append_left _ member))

/-- A primary expression is an operand of every operator. -/
theorem reads_binary_of_primary
    {first : Token}
    {input rest : List Token}
    {tree : Expression}
    (simple : Reads (primary read rounds) (first :: input) rest tree.At)
    (unsigned : first.kind ∉ [Kind.bang, .minus])
    (shorter : rest.length ≤ (first :: input).length)
    (strengths : List Strength)
    (stops : (Form.operation strengths).Stops rest) :
    Reads (Tree.binary read rounds (strengths.map Strength.level)) (first :: input) rest
      tree.At := by
  induction strengths with
  | nil =>
      have whole : Reads (primary read rounds >>= applications read rounds rounds)
          (first :: input) rest tree.At :=
        (simple.goesOn (applications read rounds) shorter).reads_applications stops
      intro ending arena faults
      obtain ⟨id, later, before, stands, ends⟩ := whole ending arena faults
      refine ⟨id, later, before, stands, ?_⟩
      have noSign : ∀ token ∈ (first :: input).head?, token.kind ∉ [Kind.bang, .minus] := by
        simpa using unsigned
      rw [List.map_nil, Tree.binary, Tree.unary, bind_of_ok (acceptAny_of_not_mem _ _ _ noSign)]
      exact ends
  | cons strength tighter inductionHypothesis =>
      have stopsTighter : (Form.operation tighter).Stops rest :=
        stops.of_subset (by simp [Form.extensions, operatorKinds])
      refine ((inductionHypothesis stopsTighter).goesOn
        (chain strength.level (Tree.binary read rounds (tighter.map Strength.level)))
        shorter).reads_chain fun token head member => ?_
      exact stops token head (List.mem_append_left _ (List.mem_append_left _ member))

theorem reads_signed
    {operator : Token}
    {input rest : List Token}
    {operand : Expression}
    (sign : operator.kind = .bang ∨ operator.kind = .minus)
    (inside : Reads (read .unary) input rest operand.At) :
    Reads (Tree.unary read rounds) (operator :: input) rest
      (Expression.unary operator operand).At := by
  intro ending arena faults
  obtain ⟨id, later, before, stands, ends⟩ := inside ending arena faults
  refine exists_of_addNode ?_ before ((Rose.allStandAt_singleton _ _).mpr ⟨some id, rfl, stands⟩)
  have member : operator.kind ∈ [Kind.bang, .minus] := by
    simpa using sign
  rw [Tree.unary, bind_of_ok (acceptAny_of_mem _ _ _ _ member)]
  simp only
  rw [bind_of_ok ends]
  rfl

theorem reads_unsigned
    {input rest : List Token}
    {tree : Expression}
    (derivation : Derives .application input rest tree)
    (whole : GoesOn (primary read rounds >>= applications read rounds rounds)
      (applications read rounds) rounds input rest tree.At)
    (stops : Form.unary.Stops rest) :
    Reads (Tree.unary read rounds) input rest tree.At := by
  intro ending arena faults
  obtain ⟨id, later, before, stands, ends⟩ :=
    whole.reads_applications stops ending arena faults
  refine ⟨id, later, before, stands, ?_⟩
  obtain ⟨first, others, rfl, member⟩ := derivation.opens rfl
  have noSign : ∀ token ∈ (first :: others).head?, token.kind ∉ [Kind.bang, .minus] := by
    simp only [List.head?_cons, Option.mem_some_iff, forall_eq']
    intro sign
    simp only [List.mem_cons, List.not_mem_nil, or_false] at sign
    rcases sign with sign | sign <;> simp [sign, Form.openers, simpleOpeners] at member
  rw [Tree.unary, bind_of_ok (acceptAny_of_not_mem _ _ _ noSign)]
  exact ends

theorem reads_assignment
    {name equals : Token}
    {input rest : List Token}
    {value : Expression}
    (named : name.kind = .identifier)
    (equal : equals.kind = .equal)
    (inside : Reads (read .expression) input rest value.At) :
    Reads (Tree.expression read rounds) (name :: equals :: input) rest
      (Expression.assignment name value).At := by
  intro ending arena faults
  have stops : (Form.operation Strength.all).Stops (equals :: input) := by
    rw [Form.stops_cons, equal]
    decide
  have target : Reads (Tree.binary read rounds levels) (name :: equals :: input)
      (equals :: input) (mention name).At :=
    reads_binary_of_primary (reads_mention named _) (by simp [named]) (by simp) _ stops
  obtain ⟨targetId, between, before, stands, ends⟩ := target ending arena faults
  obtain ⟨id, later, after, valueStands, valueEnds⟩ := inside ending between faults
  refine exists_of_addNode ?_ (Arena.le_trans before after)
    ((Rose.allStandAt_singleton _ _).mpr ⟨some id, rfl, valueStands⟩)
  obtain ⟨index, ids, same, found, -⟩ :=
    (Rose.standsAt_node _ _ _ _ _).mp (stands.mono after)
  cases same
  rw [Tree.expression, bind_of_ok ends, bind_of_ok (accept_of_eq _ _ _ _ equal)]
  simp only
  rw [bind_of_ok valueEnds]
  rw [get_bind]
  simp only [found]
  rfl

theorem reads_full
    {input rest : List Token}
    {tree : Expression}
    (operation : Reads (Tree.binary read rounds levels) input rest tree.At)
    (stops : Form.full.Stops rest) :
    Reads (Tree.expression read rounds) input rest tree.At := by
  intro ending arena faults
  obtain ⟨id, later, before, stands, ends⟩ := operation ending arena faults
  refine ⟨id, later, before, stands, ?_⟩
  have noEqual : ∀ token ∈ rest.head?, token.kind ≠ Kind.equal := fun token head same =>
    stops token head (by simp [Form.extensions, same])
  rw [Tree.expression, bind_of_ok ends, bind_of_ok (accept_of_ne _ _ _ noEqual)]
  rfl

/-- An operand of tighter operators ends before an operator that is none of them. -/
theorem stops_operator
    {strength : Strength}
    {tighter : List Strength}
    {operator : Token}
    {rest : List Token}
    (member : operator.kind ∈ strength.operators)
    (notMember : strength ∉ tighter) :
    (Form.operation tighter).Stops (operator :: rest) := by
  rw [Form.stops_cons]
  intro extension
  rcases List.mem_append.mp extension with tightMember | follows
  · obtain ⟨other, otherMember, sameKind⟩ := List.mem_flatMap.mp tightMember
    exact notMember (Strength.eq_of_mem_operators member sameKind ▸ otherMember)
  · cases strength <;> simp_all [Strength.operators] <;> grind

theorem stops_closing
    {closing : Token}
    {others : List Token}
    (closes : closing.kind ∈ [Kind.rightParen, .rightBracket]) :
    Form.items.Stops (closing :: others) := by
  rw [Form.stops_cons]
  simp only [List.mem_cons, List.not_mem_nil, or_false] at closes
  rcases closes with kind | kind <;> rw [kind] <;> decide

theorem not_opener_of_closes
    {closing : Token}
    (closes : closing.kind ∈ [Kind.rightParen, .rightBracket]) :
    closing.kind ∉ Form.openers .items := by
  simp only [List.mem_cons, List.not_mem_nil, or_false] at closes
  rcases closes with kind | kind <;> rw [kind] <;> decide

/-- Each reader reads the phrases of its form. -/
theorem readAs_of_derives
    (readers : ReadsExpressions read count)
    (enough : count + 1 ≤ rounds)
    {form : Form}
    {input rest : List Token}
    {tree : form.Tree}
    (derivation : Derives form input rest tree) :
    ReadAs read rounds count form input rest tree := by
  induction derivation with
  | assignment named equal value =>
      intro bound stops
      exact reads_assignment named equal (readers.expression value (by simp at bound; omega) stops)
  | operation derivation inductionHypothesis =>
      intro bound stops
      refine reads_full (inductionHypothesis.reads_operation bound Strength.all_nodup ?_) stops
      exact stops.of_subset (by simp [Form.extensions])
  | @joined strength tighter operator input middle rest left right leftDerivation member
      rightDerivation leftHypothesis rightHypothesis =>
      intro bound nodup stops
      have leftLength := leftDerivation.length_le
      have rightLength := rightDerivation.length_le
      simp only [Form.least, List.length_cons] at leftLength rightLength
      obtain ⟨notMember, nodupTighter⟩ := List.nodup_cons.mp nodup
      have stopsLeft : (Form.operation tighter).Stops (operator :: middle) :=
        stops_operator member notMember
      exact goesOn_joined (leftHypothesis bound nodup stopsLeft) member
        (rightHypothesis.reads_operation (by omega) nodupTighter stops) (by omega) (by omega)
  | @tighter strength tighter input rest expression derivation inductionHypothesis =>
      intro bound nodup stops
      have shorter := derivation.length_le
      simp only [Form.least] at shorter
      exact (inductionHypothesis.reads_operation bound (List.nodup_cons.mp nodup).2 stops).goesOn
        _ (by omega)
  | operand _ inductionHypothesis => exact inductionHypothesis
  | signed sign derivation =>
      intro bound stops
      exact reads_signed sign (readers.unary derivation (by simp at bound; omega) stops)
  | unsigned derivation inductionHypothesis =>
      intro bound stops
      exact reads_unsigned derivation (inductionHypothesis bound) stops
  | call derivation opens arguments closes targetHypothesis argumentsHypothesis =>
      intro bound
      have targetLength := derivation.length_le
      have argumentsLength := arguments.length_le
      simp only [Form.least, List.length_cons] at targetLength argumentsLength
      have inside := argumentsHypothesis (by omega) _ _ rfl (by simp [closes])
      rw [closes] at inside
      exact goesOn_call (targetHypothesis bound) opens inside closes (by omega) (by omega)
  | index derivation opens position closes targetHypothesis =>
      intro bound
      have targetLength := derivation.length_le
      have positionLength := position.length_le
      simp only [Form.least, List.length_cons] at targetLength positionLength
      have inside := readers.expression position (by omega) (Form.stops_of_mem (by simp [closes]))
      exact goesOn_index (targetHypothesis bound) opens inside closes (by omega) (by omega)
  | simple derivation inductionHypothesis =>
      intro bound
      have shorter := derivation.length_le
      simp only [Form.least] at shorter
      exact (inductionHypothesis bound).goesOn _ (by omega)
  | constant spelled => exact fun _ => reads_constant spelled _
  | mention named => exact fun _ => reads_mention named _
  | group opens inner closes =>
      intro bound
      exact reads_group opens (readers.expression inner (by simp at bound; omega)
        (Form.stops_of_mem (by simp [closes]))) closes
  | array opens elements closes inductionHypothesis =>
      intro bound
      have inside := inductionHypothesis (by simp at bound; omega) _ _ rfl (by simp [closes])
      rw [closes] at inside
      exact reads_array opens inside closes
  | nothing =>
      intro bound closing others front closes ending arena faults
      obtain rfl := front
      obtain ⟨ids, later, before, rfl, ends⟩ :=
        reads_itemsBefore_nothing rfl (read .expression) others ending arena faults
      exact ⟨[], later, before, (Rose.allStandAt_nil _).mpr rfl, ends⟩
  | @listed input rest expressions derivation inductionHypothesis =>
      intro bound closing others front closes ending arena faults
      obtain ⟨first, tokens, rfl, member⟩ := derivation.opens rfl
      have stops : Form.items.Stops rest := front ▸ stops_closing closes
      have different : first.kind ≠ closing.kind := fun same =>
        not_opener_of_closes closes (same ▸ member)
      obtain ⟨ids, later, before, ⟨others, same, stand⟩, ends⟩ :=
        reads_itemsBefore_listed different (inductionHypothesis bound stops rounds #[] (by omega))
          ending arena faults
      obtain rfl : ids = others := by simpa using same
      exact ⟨ids, later, before, stand, ends⟩
  | @last input rest expression derivation =>
      intro bound stops remaining found left
      have nonempty := derivation.length_le
      simp only [Form.least] at nonempty
      obtain ⟨remaining, rfl⟩ : ∃ fewer, remaining = fewer + 1 := ⟨remaining - 1, by omega⟩
      have stopsFull : Form.full.Stops rest := stops.of_subset (by simp [Form.extensions])
      have noComma : ∀ token ∈ rest.head?, token.kind ≠ Kind.comma := fun token head same =>
        stops token head (by simp [Form.extensions, same])
      intro ending arena faults
      obtain ⟨all, later, before, ⟨id, rfl, stands⟩, ends⟩ :=
        reads_separated_last (readers.expression derivation bound stopsFull) noComma remaining
          found ending arena faults
      exact ⟨_, later, before, ⟨[some id], by simp, by simpa using stands⟩, ends⟩
  | more derivation separates others firstHypothesis othersHypothesis =>
      intro bound stops remaining found left
      have firstLength := derivation.length_le
      simp only [Form.least, List.length_cons] at firstLength
      obtain ⟨remaining, rfl⟩ : ∃ fewer, remaining = fewer + 1 := ⟨remaining - 1, by omega⟩
      have first := readers.expression derivation bound
        (Form.stops_of_mem (by simp [separates]))
      intro ending arena faults
      obtain ⟨all, later, before, ⟨id, earlier, after, stands, ids, rfl, stand⟩, ends⟩ :=
        reads_separated_more first separates
          (fun found => othersHypothesis (by omega) stops remaining found (by omega))
          ending arena faults
      refine ⟨_, later, before, ⟨some id :: ids, by simp, ?_⟩, ends⟩
      simpa using ⟨stands.mono after, stand⟩

end Expression

/-- Within enough levels every expression is read. -/
theorem readsExpressions_readWithin (count : Nat) :
    ReadsExpressions (Phrase.readWithin count) count := by
  induction count with
  | zero =>
      constructor
      · intro input rest tree derivation bound
        have nonempty := derivation.length_le
        simp only [Form.least] at nonempty
        omega
      · intro input rest tree derivation bound
        have nonempty := derivation.length_le
        simp only [Form.least] at nonempty
        omega
  | succ count inductionHypothesis =>
      constructor
      · intro input rest tree derivation bound stops ending arena faults
        rw [readWithin_succ]
        exact Expression.readAs_of_derives inductionHypothesis (Nat.le_refl _) derivation
          bound stops ending arena faults
      · intro input rest tree derivation bound stops ending arena faults
        rw [readWithin_succ]
        exact Expression.readAs_of_derives inductionHypothesis (Nat.le_refl _) derivation
          bound stops ending arena faults

end Tree
end Scripting
