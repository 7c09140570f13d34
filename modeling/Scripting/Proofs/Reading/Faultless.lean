import Scripting.Proofs.Reading.Onward
import Scripting.Proofs.Reading.Statements

/-!
# What is read without a fault

A reading that succeeds and records no fault has taken a phrase of the grammar.  A
part of such a reading records no fault either, since faults are never taken back,
so the parts of a rule are phrases whenever the whole is one.

Main statement: `findsExpressions_readWithin`, for expressions.
-/

namespace Scripting
namespace Tree

open Token (Kind)

variable {α : Type}

/-! ## What is known of the steps that have succeeded -/

section Steps

variable {cursor later : Cursor}

theorem peek_eq_ok
    {token : Token}
    (ends : peek cursor = .ok token later) :
    token = cursor.current ∧ later = cursor := by
  simpa [peek, eq_comm] using ends

theorem skip_eq_ok (ends : skip cursor = .ok () later) :
    later.rest = cursor.rest.tail ∧ later.ending = cursor.ending ∧
      later.faults.size = cursor.faults.size := by
  simp only [skip, EStateM.Result.ok.injEq, true_and] at ends
  subst ends
  exact ⟨rfl, rfl, rfl⟩

theorem acceptAny_eq_some
    {wanted : List Kind}
    {token : Token}
    (ends : acceptAny wanted cursor = .ok (some token) later) :
    cursor.rest = token :: later.rest ∧ token.kind ∈ wanted ∧
      later.ending = cursor.ending ∧ later.faults.size = cursor.faults.size := by
  unfold acceptAny at ends
  split at ends
  · simp at ends
  next found rest front =>
      split at ends
      next member =>
          simp only [EStateM.Result.ok.injEq, Option.some.injEq] at ends
          obtain ⟨rfl, rfl⟩ := ends
          exact ⟨front, member, rfl, rfl⟩
      next => simp at ends

theorem acceptAny_eq_none
    {wanted : List Kind}
    (ends : acceptAny wanted cursor = .ok none later) :
    later = cursor := by
  unfold acceptAny at ends
  split at ends
  · simpa [eq_comm] using ends
  · split at ends
    · simp at ends
    · simpa [eq_comm] using ends

theorem accept_eq_some
    {kind : Kind}
    {token : Token}
    (ends : accept kind cursor = .ok (some token) later) :
    cursor.rest = token :: later.rest ∧ token.kind = kind ∧
      later.ending = cursor.ending ∧ later.faults.size = cursor.faults.size := by
  obtain ⟨front, member, same⟩ := acceptAny_eq_some ends
  exact ⟨front, by simpa using member, same⟩

theorem accept_eq_none
    {kind : Kind}
    (ends : accept kind cursor = .ok none later) :
    later = cursor :=
  acceptAny_eq_none ends

theorem expect_eq_ok
    {kind : Kind}
    {message : String}
    {token : Token}
    (ends : expect kind message cursor = .ok token later) :
    cursor.rest = token :: later.rest ∧ token.kind = kind ∧
      later.ending = cursor.ending ∧ later.faults.size = cursor.faults.size := by
  obtain ⟨found, between, accepted, following⟩ := bind_eq_ok.mp ends
  cases found with
  | some other =>
      obtain ⟨rfl, rfl⟩ := pure_eq_ok.mp following
      exact accept_eq_some accepted
  | none =>
      obtain ⟨current, after, -, thrown⟩ := bind_eq_ok.mp following
      cases thrown

theorem noExpression_ne_ok (value : α) : (noExpression : Parse α) cursor ≠ .ok value later := by
  intro ends
  obtain ⟨current, after, -, thrown⟩ := bind_eq_ok.mp ends
  cases thrown

theorem addNode_eq_ok
    {node : Node}
    {id : NodeId}
    (ends : addNode node cursor = .ok id later) :
    later.rest = cursor.rest ∧ later.ending = cursor.ending ∧
      later.faults.size = cursor.faults.size := by
  simp only [addNode, EStateM.Result.ok.injEq] at ends
  obtain ⟨-, rfl⟩ := ends
  exact ⟨rfl, rfl, rfl⟩

theorem add_eq_ok
    {kind : NodeKind}
    {token : Token}
    {children : List (Option NodeId)}
    {id : NodeId}
    (ends : add kind token children cursor = .ok id later) :
    later.rest = cursor.rest ∧ later.ending = cursor.ending ∧
      later.faults.size = cursor.faults.size :=
  addNode_eq_ok ends

theorem record_eq_ok
    {fault : Fault}
    (ends : record fault cursor = .ok () later) :
    later.faults.size = cursor.faults.size + 1 := by
  simp only [record, EStateM.Result.ok.injEq, true_and] at ends
  subst ends
  simp

theorem check_eq_ok
    {kind : Kind}
    {answer : Bool}
    (ends : check kind cursor = .ok answer later) :
    later = cursor := by
  simp only [check, EStateM.Result.ok.injEq] at ends
  exact ends.2.symm

/-- What is read next and is not the end of the input is the first of the tokens left. -/
theorem rest_eq
    (closed : cursor.ending.kind = .endOfInput)
    (different : cursor.current.kind ≠ .endOfInput) :
    cursor.rest = cursor.current :: cursor.rest.tail := by
  cases front : cursor.rest with
  | nil => simp [Cursor.current, front, closed] at different
  | cons token rest => simp [Cursor.current, front]

end Steps

/-- Whenever the work on at most `count` tokens succeeds without a fault, `found` is
true of the tokens before it and after it. -/
def Finds (work : Parse α) (count : Nat) (found : List Token → List Token → Prop) : Prop :=
  ∀ (cursor later : Cursor) (value : α), cursor.ending.kind = .endOfInput →
    cursor.rest.length ≤ count → work cursor = .ok value later →
    later.faults.size ≤ cursor.faults.size → found cursor.rest later.rest

open Expression (Form Derives)

/-- The tokens of the first list before the second are a phrase of a form. -/
def IsExpression (form : Form) (input rest : List Token) : Prop :=
  ∃ tree, Derives form input rest tree

theorem IsExpression.length_lt
    {form : Form}
    {input rest : List Token}
    (phrase : IsExpression form input rest)
    (nonempty : form.least = 1) :
    rest.length < input.length := by
  obtain ⟨tree, derivation⟩ := phrase
  have shorter := derivation.length_le
  omega

theorem constantOf?_spelledBy
    {token : Token}
    {value : Constant}
    (found : constantOf? token = some value) :
    value.SpelledBy token := by
  unfold constantOf? at found
  split at found
  next kind => exact Option.some.inj found ▸ .null kind
  next kind => exact Option.some.inj found ▸ .truth kind
  next kind => exact Option.some.inj found ▸ .falsehood kind
  next kind =>
      obtain ⟨literal, held, rfl⟩ := Option.map_eq_some_iff.mp found
      exact .literal (.inl kind) held
  next kind =>
      obtain ⟨literal, held, rfl⟩ := Option.map_eq_some_iff.mp found
      exact .literal (.inr kind) held
  next => simp at found

variable {read : Phrase → Parse NodeId} {rounds count : Nat}

/-- The readers of expressions and operands take expressions and operands. -/
structure FindsExpressions (read : Phrase → Parse NodeId) (count : Nat) : Prop where
  onward (phrase : Phrase) : GoesOnward (read phrase)
  expression : Finds (read .expression) count (IsExpression .full)
  unary : Finds (read .unary) count (IsExpression .unary)

/-! ## Lists and primary expressions -/

/-- Items between commas are found one after the other. -/
theorem separated_faultless
    {item : Parse NodeId}
    {one many : List Token → List Token → Prop}
    (onward : GoesOnward item)
    (finds : Finds item count one)
    (shorter : ∀ {input rest}, one input rest → rest.length < input.length)
    (last : ∀ {input rest}, one input rest → many input rest)
    (more : ∀ {input comma middle rest}, one input (comma :: middle) → comma.kind = .comma →
      many middle rest → many input rest)
    {remaining : Nat}
    {found all : Array (Option NodeId)}
    {cursor later : Cursor}
    (closed : cursor.ending.kind = .endOfInput)
    (bound : cursor.rest.length ≤ count)
    (enough : cursor.rest.length < remaining)
    (ends : separated item remaining found cursor = .ok all later)
    (faultless : later.faults.size ≤ cursor.faults.size) :
    many cursor.rest later.rest := by
  induction remaining generalizing found cursor with
  | zero => omega
  | succ remaining inductionHypothesis =>
      obtain ⟨id, first, firstEnds, afterFirst⟩ := bind_eq_ok.mp ends
      obtain ⟨comma, second, accepted, afterComma⟩ := bind_eq_ok.mp afterFirst
      have firstOnward := onward.after_ok firstEnds
      cases comma with
      | none =>
          obtain rfl := accept_eq_none accepted
          obtain ⟨-, rfl⟩ := pure_eq_ok.mp afterComma
          exact last (finds _ _ _ closed bound firstEnds faultless)
      | some comma =>
          obtain ⟨front, kind, ending, faults⟩ := accept_eq_some accepted
          have firstFaults := firstOnward.faults_size_le
          have othersFaults := ((onward_separated onward _ _).after_ok afterComma).faults_size_le
          have phrase := finds _ _ _ closed bound firstEnds (by omega)
          have left := shorter phrase
          rw [front] at phrase left
          rw [List.length_cons] at left
          exact more phrase kind (inductionHypothesis
            (by rw [ending, firstOnward.ending, closed]) (by omega) (by omega) afterComma
            (by omega))

theorem itemsBefore_faultless
    {item : Parse NodeId}
    {one many list : List Token → List Token → Prop}
    (onward : GoesOnward item)
    (finds : Finds item count one)
    (shorter : ∀ {input rest}, one input rest → rest.length < input.length)
    (last : ∀ {input rest}, one input rest → many input rest)
    (more : ∀ {input comma middle rest}, one input (comma :: middle) → comma.kind = .comma →
      many middle rest → many input rest)
    (nothing : ∀ input, list input input)
    (listed : ∀ {input rest}, many input rest → list input rest)
    (enough : count < rounds)
    (closing : Kind) :
    Finds (itemsBefore closing item rounds) count list := by
  intro cursor later ids closed bound ends faultless
  obtain ⟨answer, same, checked, afterCheck⟩ := bind_eq_ok.mp ends
  obtain rfl := check_eq_ok checked
  cases answer with
  | true =>
      obtain ⟨-, rfl⟩ := pure_eq_ok.mp afterCheck
      exact nothing _
  | false =>
      obtain ⟨all, between, items, afterItems⟩ := bind_eq_ok.mp afterCheck
      obtain ⟨-, rfl⟩ := pure_eq_ok.mp afterItems
      exact listed
        (separated_faultless onward finds shorter last more closed bound (by omega) items faultless)

theorem arguments_faultless
    (finds : FindsExpressions read count)
    (enough : count < rounds)
    (closing : Kind) :
    Finds (itemsBefore closing (read .expression) rounds) count (IsExpression .arguments) := by
  have listed : ∀ {input rest : List Token},
      IsExpression .items input rest → IsExpression .arguments input rest := by
    rintro input rest ⟨trees, derivation⟩
    exact ⟨trees, .listed derivation⟩
  refine itemsBefore_faultless (finds.onward .expression) finds.expression
    (fun phrase => phrase.length_lt rfl) ?_ ?_ (fun _ => ⟨[], .nothing⟩) listed enough closing
  · rintro input rest ⟨tree, derivation⟩
    exact ⟨[tree], .last derivation⟩
  · rintro input comma middle rest ⟨tree, derivation⟩ kind ⟨trees, others⟩
    exact ⟨tree :: trees, .more derivation kind others⟩

theorem primary_faultless
    (finds : FindsExpressions read count)
    (enough : count < rounds) :
    Finds (primary read rounds) (count + 1) (IsExpression .primary) := by
  intro cursor later id closed bound ends faultless
  obtain ⟨token, between, peeked, afterPeek⟩ := bind_eq_ok.mp ends
  obtain ⟨rfl, rfl⟩ := peek_eq_ok peeked
  cases spelled : constantOf? between.current with
  | some value =>
      simp only [spelled] at afterPeek
      obtain ⟨_, first, skipped, added⟩ := bind_eq_ok.mp afterPeek
      obtain ⟨skippedRest, -⟩ := skip_eq_ok skipped
      obtain ⟨addedRest, -⟩ := addNode_eq_ok added
      rw [rest_eq closed (fun kind => by simp [constantOf?, kind] at spelled), addedRest,
        skippedRest]
      exact ⟨_, .constant (constantOf?_spelledBy spelled)⟩
  | none =>
      simp only [spelled] at afterPeek
      cases kind : between.current.kind with
      | identifier =>
          simp only [kind] at afterPeek
          obtain ⟨_, first, skipped, added⟩ := bind_eq_ok.mp afterPeek
          obtain ⟨skippedRest, -⟩ := skip_eq_ok skipped
          obtain ⟨addedRest, -⟩ := add_eq_ok added
          rw [rest_eq closed (by simp [kind]), addedRest, skippedRest]
          exact ⟨_, .mention kind⟩
      | leftParen =>
          simp only [kind] at afterPeek
          obtain ⟨_, first, skipped, afterSkip⟩ := bind_eq_ok.mp afterPeek
          obtain ⟨skippedRest, skippedEnding, skippedFaults⟩ := skip_eq_ok skipped
          obtain ⟨inner, second, innerEnds, afterInner⟩ := bind_eq_ok.mp afterSkip
          obtain ⟨paren, third, expected, added⟩ := bind_eq_ok.mp afterInner
          obtain ⟨innerFront, closes, -, expectedFaults⟩ := expect_eq_ok expected
          obtain ⟨addedRest, -, addedFaults⟩ := add_eq_ok added
          have front := rest_eq closed (by simp [kind])
          rw [← skippedRest] at front
          rw [front, List.length_cons] at bound
          obtain ⟨tree, derivation⟩ := finds.expression _ _ _ (skippedEnding ▸ closed) (by omega)
            innerEnds (by omega)
          rw [innerFront] at derivation
          rw [front, addedRest]
          exact ⟨_, .group kind derivation closes⟩
      | leftBracket =>
          simp only [kind] at afterPeek
          obtain ⟨_, first, skipped, afterSkip⟩ := bind_eq_ok.mp afterPeek
          obtain ⟨skippedRest, skippedEnding, skippedFaults⟩ := skip_eq_ok skipped
          obtain ⟨elements, second, elementsEnd, afterElements⟩ := bind_eq_ok.mp afterSkip
          obtain ⟨bracket, third, expected, added⟩ := bind_eq_ok.mp afterElements
          obtain ⟨innerFront, closes, -, expectedFaults⟩ := expect_eq_ok expected
          obtain ⟨addedRest, -, addedFaults⟩ := add_eq_ok added
          have front := rest_eq closed (by simp [kind])
          rw [← skippedRest] at front
          rw [front, List.length_cons] at bound
          obtain ⟨trees, derivation⟩ := arguments_faultless finds enough _ _ _ _
            (skippedEnding ▸ closed) (by omega) elementsEnd (by omega)
          rw [innerFront] at derivation
          rw [front, addedRest]
          exact ⟨_, .array kind derivation closes⟩
      | _ =>
          simp only [kind] at afterPeek
          exact absurd afterPeek (noExpression_ne_ok id)

/-! ## Loops for calls and operators -/

theorem applications_faultless
    (finds : FindsExpressions read count)
    (enough : count < rounds)
    {input : List Token}
    {remaining : Nat}
    {target id : NodeId}
    {cursor later : Cursor}
    (before : IsExpression .application input cursor.rest)
    (closed : cursor.ending.kind = .endOfInput)
    (bound : cursor.rest.length ≤ count + 1)
    (ends : applications read rounds remaining target cursor = .ok id later)
    (faultless : later.faults.size ≤ cursor.faults.size) :
    IsExpression .application input later.rest := by
  induction remaining generalizing target cursor with
  | zero =>
      obtain ⟨-, rfl⟩ := pure_eq_ok.mp ends
      exact before
  | succ remaining inductionHypothesis =>
      obtain ⟨opening, first, accepted, afterOpening⟩ := bind_eq_ok.mp ends
      cases opening with
      | some opening =>
          obtain ⟨front, opens, ending, faults⟩ := accept_eq_some accepted
          obtain ⟨arguments, second, argumentsEnd, afterArguments⟩ := bind_eq_ok.mp afterOpening
          obtain ⟨paren, third, expected, afterParen⟩ := bind_eq_ok.mp afterArguments
          obtain ⟨innerFront, closes, thirdEnding, thirdFaults⟩ := expect_eq_ok expected
          obtain ⟨call, fourth, added, following⟩ := bind_eq_ok.mp afterParen
          obtain ⟨addedRest, addedEnding, addedFaults⟩ := add_eq_ok added
          have argumentsOnward :=
            (onward_itemsBefore (finds.onward .expression) _ _).after_ok argumentsEnd
          have argumentsFaults := argumentsOnward.faults_size_le
          have followingFaults :=
            ((onward_applications finds.onward _ _ _).after_ok following).faults_size_le
          have shorter := argumentsOnward.rest.length_le
          rw [innerFront, List.length_cons, ← addedRest] at shorter
          rw [front, List.length_cons] at bound
          obtain ⟨callee, derivation⟩ := before
          obtain ⟨trees, inside⟩ := arguments_faultless finds enough _ _ _ _ (ending ▸ closed)
            (by omega) argumentsEnd (by omega)
          rw [front] at derivation
          rw [innerFront, ← addedRest] at inside
          exact inductionHypothesis ⟨_, .call derivation opens inside closes⟩
            (by rw [addedEnding, thirdEnding, argumentsOnward.ending, ending, closed]) (by omega)
            following (by omega)
      | none =>
          obtain rfl := accept_eq_none accepted
          obtain ⟨opening, second, acceptedBracket, afterBoth⟩ := bind_eq_ok.mp afterOpening
          cases opening with
          | some opening =>
              obtain ⟨front, opens, ending, faults⟩ := accept_eq_some acceptedBracket
              obtain ⟨position, third, positionEnds, afterPosition⟩ := bind_eq_ok.mp afterBoth
              obtain ⟨bracket, fourth, expected, afterBracket⟩ := bind_eq_ok.mp afterPosition
              obtain ⟨innerFront, closes, fourthEnding, fourthFaults⟩ := expect_eq_ok expected
              obtain ⟨element, fifth, added, following⟩ := bind_eq_ok.mp afterBracket
              obtain ⟨addedRest, addedEnding, addedFaults⟩ := add_eq_ok added
              have positionOnward := (finds.onward .expression).after_ok positionEnds
              have positionFaults := positionOnward.faults_size_le
              have followingFaults :=
                ((onward_applications finds.onward _ _ _).after_ok following).faults_size_le
              have shorter := positionOnward.rest.length_le
              rw [innerFront, List.length_cons, ← addedRest] at shorter
              rw [front, List.length_cons] at bound
              obtain ⟨callee, derivation⟩ := before
              obtain ⟨tree, inside⟩ := finds.expression _ _ _ (ending ▸ closed) (by omega)
                positionEnds (by omega)
              rw [front] at derivation
              rw [innerFront, ← addedRest] at inside
              exact inductionHypothesis ⟨_, .index derivation opens inside closes⟩
                (by rw [addedEnding, fourthEnding, positionOnward.ending, ending, closed])
                (by omega) following (by omega)
          | none =>
              obtain rfl := accept_eq_none acceptedBracket
              obtain ⟨-, rfl⟩ := pure_eq_ok.mp afterBoth
              exact before

theorem unary_faultless
    (finds : FindsExpressions read count)
    (enough : count < rounds) :
    Finds (unary read rounds) (count + 1) (IsExpression .unary) := by
  intro cursor later id closed bound ends faultless
  obtain ⟨operator, first, accepted, afterOperator⟩ := bind_eq_ok.mp ends
  cases operator with
  | some operator =>
      obtain ⟨front, sign, ending, faults⟩ := acceptAny_eq_some accepted
      obtain ⟨operand, second, operandEnds, added⟩ := bind_eq_ok.mp afterOperator
      obtain ⟨addedRest, -, addedFaults⟩ := add_eq_ok added
      rw [front, List.length_cons] at bound
      obtain ⟨tree, derivation⟩ :=
        finds.unary _ _ _ (ending ▸ closed) (by omega) operandEnds (by omega)
      rw [front, addedRest]
      exact ⟨_, .signed (by simpa using sign) derivation⟩
  | none =>
      obtain rfl := acceptAny_eq_none accepted
      obtain ⟨target, second, targetEnds, following⟩ := bind_eq_ok.mp afterOperator
      have targetOnward := (onward_primary finds.onward rounds).after_ok targetEnds
      have targetFaults := targetOnward.faults_size_le
      have followingFaults :=
        ((onward_applications finds.onward _ _ _).after_ok following).faults_size_le
      have shorter := targetOnward.rest.length_le
      obtain ⟨tree, derivation⟩ :=
        primary_faultless finds enough _ _ _ closed bound targetEnds (by omega)
      obtain ⟨whole, application⟩ := applications_faultless finds enough
        ⟨_, .simple derivation⟩ (by rw [targetOnward.ending, closed]) (by omega) following
        (by omega)
      exact ⟨whole, .unsigned application⟩

theorem chain_faultless
    {operand : Parse NodeId}
    {strength : Strength}
    {tighter : List Strength}
    (onward : GoesOnward operand)
    (finds : Finds operand (count + 1) (IsExpression (.operation tighter)))
    {input : List Token}
    {remaining : Nat}
    {left id : NodeId}
    {cursor later : Cursor}
    (before : IsExpression (.operation (strength :: tighter)) input cursor.rest)
    (closed : cursor.ending.kind = .endOfInput)
    (bound : cursor.rest.length ≤ count + 1)
    (ends : chain strength.level operand remaining left cursor = .ok id later)
    (faultless : later.faults.size ≤ cursor.faults.size) :
    IsExpression (.operation (strength :: tighter)) input later.rest := by
  induction remaining generalizing left cursor with
  | zero =>
      obtain ⟨-, rfl⟩ := pure_eq_ok.mp ends
      exact before
  | succ remaining inductionHypothesis =>
      obtain ⟨operator, first, accepted, afterOperator⟩ := bind_eq_ok.mp ends
      cases operator with
      | some operator =>
          obtain ⟨front, member, ending, faults⟩ := acceptAny_eq_some accepted
          obtain ⟨right, second, rightEnds, afterRight⟩ := bind_eq_ok.mp afterOperator
          obtain ⟨joined, third, added, following⟩ := bind_eq_ok.mp afterRight
          obtain ⟨addedRest, addedEnding, addedFaults⟩ := add_eq_ok added
          have rightOnward := onward.after_ok rightEnds
          have rightFaults := rightOnward.faults_size_le
          have followingFaults := ((onward_chain onward _ _).after_ok following).faults_size_le
          have shorter := rightOnward.rest.length_le
          rw [← addedRest] at shorter
          rw [front, List.length_cons] at bound
          obtain ⟨leftTree, leftDerivation⟩ := before
          obtain ⟨rightTree, rightDerivation⟩ :=
            finds _ _ _ (ending ▸ closed) (by omega) rightEnds (by omega)
          rw [front] at leftDerivation
          rw [← addedRest] at rightDerivation
          exact inductionHypothesis ⟨_, .joined leftDerivation member rightDerivation⟩
            (by rw [addedEnding, rightOnward.ending, ending, closed]) (by omega) following
            (by omega)
      | none =>
          obtain rfl := acceptAny_eq_none accepted
          obtain ⟨-, rfl⟩ := pure_eq_ok.mp afterOperator
          exact before

theorem binary_faultless
    (finds : FindsExpressions read count)
    (enough : count < rounds)
    (strengths : List Strength) :
    Finds (binary read rounds (strengths.map Strength.level)) (count + 1)
      (IsExpression (.operation strengths)) := by
  induction strengths with
  | nil =>
      intro cursor later id closed bound ends faultless
      obtain ⟨tree, derivation⟩ := unary_faultless finds enough _ _ _ closed bound ends faultless
      exact ⟨tree, .operand derivation⟩
  | cons strength tighter inductionHypothesis =>
      intro cursor later id closed bound ends faultless
      obtain ⟨left, first, leftEnds, following⟩ := bind_eq_ok.mp ends
      have operandOnward := onward_binary finds.onward rounds (tighter.map Strength.level)
      have leftOnward := operandOnward.after_ok leftEnds
      have leftFaults := leftOnward.faults_size_le
      have followingFaults := ((onward_chain operandOnward _ _).after_ok following).faults_size_le
      have shorter := leftOnward.rest.length_le
      obtain ⟨tree, derivation⟩ := inductionHypothesis _ _ _ closed bound leftEnds (by omega)
      exact chain_faultless operandOnward inductionHypothesis ⟨_, .tighter derivation⟩
        (by rw [leftOnward.ending, closed]) (by omega) following (by omega)

/-! ## Expressions -/

/-- A name among operands and operators is the whole phrase. -/
theorem mention_of_derives
    {strengths : List Strength}
    {input rest : List Token}
    {name : Token}
    (derivation : Derives (.operation strengths) input rest (.mention name)) :
    input = name :: rest ∧ name.kind = .identifier := by
  generalize same : Expression.mention name = tree at derivation
  induction strengths with
  | nil =>
      subst same
      cases derivation with
      | operand unary =>
          cases unary with
          | unsigned application =>
              cases application with
              | simple primary =>
                  cases primary with
                  | mention named => exact ⟨rfl, named⟩
  | cons strength tighter inductionHypothesis =>
      cases derivation with
      | joined => cases strength <;> simp [Strength.join] at same
      | tighter operation => exact inductionHypothesis operation

/-- Only a name is laid out as a variable. -/
theorem eq_mention_of_variable
    {tree : Expression}
    {arena : Arena}
    {id : NodeId}
    {node : Node}
    (stands : tree.At arena id)
    (found : arena.get? id = some node)
    (variableKind : node.kind = .variable) :
    tree = .mention node.token := by
  unfold Expression.At at stands
  cases tree <;> rw [Expression.rose, Rose.standsAt_node] at stands
  all_goals
    obtain ⟨index, ids, same, held, -⟩ := stands
    cases same
    rw [found, Option.some.injEq] at held
    subst held
    first | rfl | simp at variableKind

/-- A target of an assignment that is found to be a variable is a bare name. -/
theorem target_eq_mention
    (reads : ReadsExpressions read count)
    (enough : count < rounds)
    {cursor between : Cursor}
    {later : Arena}
    {target : NodeId}
    {node : Node}
    {tree : Expression}
    {equals : Token}
    {rest : List Token}
    (bound : cursor.rest.length ≤ count + 1)
    (derivation : Derives (.operation Strength.all) cursor.rest between.rest tree)
    (front : between.rest = equals :: rest)
    (equal : equals.kind = .equal)
    (ends : binary read rounds levels cursor = .ok target between)
    (after : between.arena ≤ later)
    (found : later.get? target = some node)
    (variableKind : node.kind = .variable) :
    cursor.rest = node.token :: between.rest ∧ node.token.kind = .identifier := by
  have stops : (Form.operation Strength.all).Stops between.rest := by
    rw [front, Form.stops_cons, equal]
    decide
  obtain ⟨id, arena, before, stands, equation⟩ :=
    (Expression.readAs_of_derives reads enough derivation).reads_operation bound
      Strength.all_nodup stops cursor.ending cursor.arena cursor.faults
  rw [← Strength.levels_eq] at equation
  obtain ⟨rfl, same⟩ := EStateM.Result.ok.inj (ends.symm.trans equation)
  have left : arena ≤ later := by
    rw [same] at after
    exact after
  obtain rfl := eq_mention_of_variable (stands.mono left) found variableKind
  exact mention_of_derives derivation

theorem expression_faultless
    (finds : FindsExpressions read count)
    (reads : ReadsExpressions read count)
    (enough : count < rounds) :
    Finds (expression read rounds) (count + 1) (IsExpression .full) := by
  intro cursor later id closed bound ends faultless
  obtain ⟨target, first, targetEnds, afterTarget⟩ := bind_eq_ok.mp ends
  obtain ⟨equals, second, accepted, afterEquals⟩ := bind_eq_ok.mp afterTarget
  have targetOnward := (onward_binary finds.onward rounds levels).after_ok targetEnds
  have targetFaults := targetOnward.faults_size_le
  have targets : Finds (binary read rounds levels) (count + 1)
      (IsExpression (.operation Strength.all)) :=
    binary_faultless finds enough Strength.all
  cases equals with
  | none =>
      obtain rfl := accept_eq_none accepted
      obtain ⟨-, rfl⟩ := pure_eq_ok.mp afterEquals
      obtain ⟨tree, derivation⟩ := targets _ _ _ closed bound targetEnds faultless
      exact ⟨tree, .operation derivation⟩
  | some equals =>
      obtain ⟨front, equal, ending, faults⟩ := accept_eq_some accepted
      obtain ⟨value, third, valueEnds, afterValue⟩ := bind_eq_ok.mp afterEquals
      obtain ⟨state, fourth, got, following⟩ := bind_eq_ok.mp afterValue
      have valueOnward := (finds.onward .expression).after_ok valueEnds
      have valueFaults := valueOnward.faults_size_le
      obtain ⟨rfl, rfl⟩ : third = state ∧ third = fourth := by
        cases got
        exact ⟨rfl, rfl⟩
      -- What is recorded stays recorded.
      have lost : ∀ fault, (record fault >>= fun _ => pure target) third ≠ .ok id later := by
        intro fault recorded
        obtain ⟨_, fifth, recorded, returned⟩ := bind_eq_ok.mp recorded
        have more := record_eq_ok recorded
        obtain ⟨-, rfl⟩ := pure_eq_ok.mp returned
        omega
      cases found : third.arena.get? target with
      | none =>
          simp only [found] at following
          exact absurd following (lost _)
      | some node =>
          obtain ⟨kind, token, constant, children⟩ := node
          by_cases isVariable : kind = .variable
          · subst isVariable
            simp only [found] at following
            obtain ⟨addedRest, -, addedFaults⟩ := add_eq_ok following
            obtain ⟨tree, derivation⟩ := targets _ _ _ closed bound targetEnds (by omega)
            have before : first.arena ≤ third.arena :=
              Arena.le_trans ((onward_accept _).after_ok accepted).arena valueOnward.arena
            obtain ⟨whole, named⟩ :=
              target_eq_mention reads enough bound derivation front equal targetEnds before found
                rfl
            rw [whole, front, List.length_cons, List.length_cons] at bound
            obtain ⟨valueTree, inside⟩ := finds.expression _ _ _
              (by rw [ending, targetOnward.ending, closed]) (by omega) valueEnds (by omega)
            rw [whole, front, addedRest]
            exact ⟨_, .assignment named equal inside⟩
          · cases kind <;> first
              | exact absurd rfl isVariable
              | simp only [found] at following
                exact absurd following (lost _)

/-- Within any number of levels only expressions are read without a fault. -/
theorem findsExpressions_readWithin (count : Nat) :
    FindsExpressions (Phrase.readWithin count) count := by
  induction count with
  | zero =>
      refine ⟨onward_readWithin 0, ?_, ?_⟩
      · intro cursor later id closed bound ends
        exact absurd ends (noExpression_ne_ok id)
      · intro cursor later id closed bound ends
        exact absurd ends (noExpression_ne_ok id)
  | succ count inductionHypothesis =>
      refine ⟨onward_readWithin (count + 1), ?_, ?_⟩
      · intro cursor later id closed bound ends
        rw [readWithin_succ] at ends
        exact expression_faultless inductionHypothesis (readsExpressions_readWithin count)
          (Nat.lt_succ_self count) _ _ _ closed bound ends
      · intro cursor later id closed bound ends
        rw [readWithin_succ] at ends
        exact unary_faultless inductionHypothesis (Nat.lt_succ_self count) _ _ _ closed bound ends

end Tree
end Scripting
