import Scripting.Proofs.Reading.Advance

/-!
# Reading amid surroundings

What is read of a piece of the input does not depend on what stands around it: on the
faults recorded before it, on the tokens behind it while one of its own is left, or on
the bounds for levels and loops while they are large enough.

`Unaffected surroundings holds work other` says so of a part of the reading: from the
cursors of which `holds` is true, `other`, amid the surroundings, does what `work` does
without them, unless `work` comes to the end of its piece and there is more behind it.

Main statements: `unaffected_readWithin` for phrases, `unaffected_declarationsBefore`
for declarations.
-/

namespace Scripting
namespace Tree

open Token (Kind)

/-- What stands around a piece of the input. -/
structure Surroundings where
  /-- The faults that were recorded before it. -/
  faults : Array Fault
  /-- The tokens that follow it. -/
  following : List Token
  /-- The end of the whole input. -/
  ending : Token

/-- The cursor in the whole input at the place of one in the piece alone. -/
def Cursor.amid (surroundings : Surroundings) (cursor : Cursor) : Cursor where
  rest := cursor.rest ++ surroundings.following
  ending := surroundings.ending
  arena := cursor.arena
  faults := surroundings.faults ++ cursor.faults

/-- What reading amid surroundings ends with, given what it ends with without them. -/
def resultAmid {α : Type} (surroundings : Surroundings) :
    EStateM.Result Fault Cursor α → EStateM.Result Fault Cursor α
  | .ok value cursor => .ok value (cursor.amid surroundings)
  | .error fault cursor => .error fault (cursor.amid surroundings)

namespace Surroundings

/-- The next token is the same with the surroundings as without them: one is left of the
piece, or nothing follows it but the end that it has alone. -/
def OutOfSight (surroundings : Surroundings) (cursor : Cursor) : Prop :=
  cursor.rest ≠ [] ∨ surroundings.following = [] ∧ surroundings.ending = cursor.ending

variable {surroundings : Surroundings} {cursor later : Cursor}

theorem OutOfSight.of_onward
    (unseen : surroundings.OutOfSight later)
    (onward : cursor.Onward later) :
    surroundings.OutOfSight cursor := by
  obtain left | ⟨nothing, same⟩ := unseen
  · left
    intro empty
    have suffix := onward.rest
    rw [empty, List.suffix_nil] at suffix
    exact left suffix
  · exact .inr ⟨nothing, same.trans onward.ending⟩

theorem OutOfSight.head?_eq (unseen : surroundings.OutOfSight cursor) :
    (cursor.amid surroundings).rest.head? = cursor.rest.head? := by
  obtain left | ⟨nothing, -⟩ := unseen
  · obtain ⟨token, others, front⟩ := List.exists_cons_of_ne_nil left
    simp [Cursor.amid, front]
  · simp [Cursor.amid, nothing]

theorem OutOfSight.current_eq (unseen : surroundings.OutOfSight cursor) :
    (cursor.amid surroundings).current = cursor.current := by
  obtain left | ⟨nothing, same⟩ := unseen
  · obtain ⟨token, others, front⟩ := List.exists_cons_of_ne_nil left
    simp [Cursor.current, Cursor.amid, front]
  · simp [Cursor.current, Cursor.amid, nothing, same]

end Surroundings

/-- The cursor behind a token comes after the one before it. -/
theorem Cursor.Onward.past
    (token : Token)
    (rest : List Token)
    (ending : Token)
    (arena : Arena)
    (faults : Array Fault) :
    Cursor.Onward ⟨token :: rest, ending, arena, faults⟩ ⟨rest, ending, arena, faults⟩ :=
  onward_skip ⟨token :: rest, ending, arena, faults⟩

/-- At most `count` tokens are left before the end of the input. -/
structure Cursor.Within (count : Nat) (cursor : Cursor) : Prop where
  closed : cursor.ending.kind = .endOfInput
  bound : cursor.rest.length ≤ count

/-- At most `count` tokens are left, and the next one is known. -/
structure Cursor.Facing (token : Token) (count : Nat) (cursor : Cursor) : Prop
    extends cursor.Within count where
  current : cursor.current = token

theorem Cursor.Within.onward
    {count : Nat}
    {cursor later : Cursor}
    (within : cursor.Within count)
    (onward : cursor.Onward later) :
    later.Within count where
  closed := onward.ending ▸ within.closed
  bound := Nat.le_trans onward.rest.length_le within.bound

theorem Cursor.Within.mono
    {count fewer : Nat}
    {cursor : Cursor}
    (within : cursor.Within fewer)
    (few : fewer ≤ count) :
    cursor.Within count where
  closed := within.closed
  bound := Nat.le_trans within.bound few

variable {α β : Type} {surroundings : Surroundings} {count : Nat}

/-- The other work does amid the surroundings what the one does without them, whenever
the one does not come to see them. -/
def Unaffected
    (surroundings : Surroundings)
    (holds : Cursor → Prop)
    (work other : Parse α) : Prop :=
  ∀ cursor : Cursor, holds cursor →
    cursor.Onward (cursorAfter (work cursor)) ∧
      (surroundings.OutOfSight (cursorAfter (work cursor)) →
        other (cursor.amid surroundings) = resultAmid surroundings (work cursor))

namespace Unaffected

theorem mono
    {holds fewer : Cursor → Prop}
    {work other : Parse α}
    (unaffected : Unaffected surroundings holds work other)
    (fewerHold : ∀ cursor, fewer cursor → holds cursor) :
    Unaffected surroundings fewer work other :=
  fun cursor held => unaffected cursor (fewerHold cursor held)

theorem fewer
    {few : Nat}
    {work other : Parse α}
    (unaffected : Unaffected surroundings (Cursor.Within count) work other)
    (enough : few ≤ count) :
    Unaffected surroundings (Cursor.Within few) work other :=
  unaffected.mono fun _ within => within.mono enough

theorem facing
    {token : Token}
    {work other : Parse α}
    (unaffected : Unaffected surroundings (Cursor.Within count) work other) :
    Unaffected surroundings (Cursor.Facing token count) work other :=
  unaffected.mono fun _ facing => facing.toWithin

theorem pure {holds : Cursor → Prop} (value : α) :
    Unaffected surroundings holds (Pure.pure value) (Pure.pure value) :=
  fun cursor _ => ⟨.refl cursor, fun _ => rfl⟩

theorem throw {holds : Cursor → Prop} (fault : Fault) :
    Unaffected surroundings holds (MonadExcept.throw fault : Parse α) (MonadExcept.throw fault) :=
  fun cursor _ => ⟨.refl cursor, fun _ => rfl⟩

/-- What comes second sees the surroundings whenever what comes first does. -/
theorem bind
    {work other : Parse α}
    {next otherNext : α → Parse β}
    (first : Unaffected surroundings (Cursor.Within count) work other)
    (second : ∀ value,
      Unaffected surroundings (Cursor.Within count) (next value) (otherNext value)) :
    Unaffected surroundings (Cursor.Within count) (work >>= next) (other >>= otherNext) := by
  intro cursor within
  obtain ⟨before, same⟩ := first cursor within
  simp only [Bind.bind, EStateM.bind]
  cases equation : work cursor with
  | ok value between =>
      rw [equation] at before same
      obtain ⟨after, nextSame⟩ := second value between (within.onward before)
      refine ⟨before.trans after, fun unseen => ?_⟩
      rw [same (unseen.of_onward after)]
      exact nextSame unseen
  | error fault between =>
      rw [equation] at before same
      refine ⟨before, fun unseen => ?_⟩
      rw [same unseen]
      rfl

theorem map
    {work other : Parse α}
    (unaffected : Unaffected surroundings (Cursor.Within count) work other)
    (change : α → β) :
    Unaffected surroundings (Cursor.Within count) (change <$> work) (change <$> other) :=
  unaffected.bind fun value => .pure (change value)

/-- Looking at the next token tells what it is. -/
theorem peek_bind
    {next otherNext : Token → Parse α}
    (each : ∀ token,
      Unaffected surroundings (Cursor.Facing token count) (next token) (otherNext token)) :
    Unaffected surroundings (Cursor.Within count) (peek >>= next) (peek >>= otherNext) := by
  intro cursor within
  obtain ⟨onward, same⟩ := each cursor.current cursor ⟨within, rfl⟩
  refine ⟨onward, fun unseen => ?_⟩
  rw [bind_of_ok (show peek (cursor.amid surroundings) = .ok _ _ from rfl),
    (unseen.of_onward onward).current_eq]
  exact same unseen

/-- Behind a token that is not the end of the input there is one token less. -/
theorem skip_bind
    {token : Token}
    (inside : token.kind ≠ .endOfInput)
    {next other : Parse α}
    (following : Unaffected surroundings (Cursor.Within count) next other) :
    Unaffected surroundings (Cursor.Facing token (count + 1)) (skip >>= fun _ => next)
      (skip >>= fun _ => other) := by
  rintro ⟨rest, ending, arena, faults⟩ ⟨⟨closed, bound⟩, rfl⟩
  cases rest with
  | nil => exact absurd closed inside
  | cons token rest =>
      rw [List.length_cons, Nat.add_le_add_iff_right] at bound
      obtain ⟨onward, same⟩ := following ⟨rest, ending, arena, faults⟩ ⟨closed, bound⟩
      exact ⟨(Cursor.Onward.past token rest ending arena faults).trans onward, same⟩

/-- Behind a token that was taken there is one token less. -/
theorem acceptAny_bind
    {wanted : List Kind}
    {next otherNext : Option Token → Parse α}
    (taken : ∀ token, 0 < count →
      Unaffected surroundings (Cursor.Within (count - 1)) (next (some token))
        (otherNext (some token)))
    (refused : Unaffected surroundings (Cursor.Within count) (next none) (otherNext none)) :
    Unaffected surroundings (Cursor.Within count) (acceptAny wanted >>= next)
      (acceptAny wanted >>= otherNext) := by
  rintro ⟨rest, ending, arena, faults⟩ ⟨closed, bound⟩
  have refusedHere := refused ⟨rest, ending, arena, faults⟩ ⟨closed, bound⟩
  cases rest with
  | nil =>
      obtain ⟨onward, same⟩ := refusedHere
      refine ⟨onward, fun unseen => ?_⟩
      obtain nonempty | ⟨nothing, -⟩ := unseen.of_onward onward
      · exact absurd rfl nonempty
      · have refuses : ∀ token ∈ ([] ++ surroundings.following).head?, token.kind ∉ wanted := by
          simp [nothing]
        exact (bind_of_ok (acceptAny_of_not_mem _ _ _ refuses)).trans (same unseen)
  | cons token rest =>
      by_cases member : token.kind ∈ wanted
      · simp only [List.length_cons] at bound
        obtain ⟨onward, same⟩ :=
          taken token (by omega) ⟨rest, ending, arena, faults⟩ ⟨closed, by simpa using by omega⟩
        rw [bind_of_ok (acceptAny_of_mem rest ending arena faults member)]
        refine ⟨(Cursor.Onward.past token rest ending arena faults).trans onward, fun unseen => ?_⟩
        exact (bind_of_ok (acceptAny_of_mem _ _ _ _ member)).trans (same unseen)
      · have others : ∀ other ∈ (token :: rest).head?, other.kind ∉ wanted := by
          simpa using member
        rw [bind_of_ok (acceptAny_of_not_mem ending arena faults others)]
        refine ⟨refusedHere.1, fun unseen => ?_⟩
        have otherRefuses : ∀ other ∈ (token :: rest ++ surroundings.following).head?,
            other.kind ∉ wanted := by
          simpa using member
        exact (bind_of_ok (acceptAny_of_not_mem _ _ _ otherRefuses)).trans
          (refusedHere.2 unseen)

/-- Where nothing is left, it is enough that both do what a third does that is not
affected. -/
theorem of_nil
    {work other third : Parse α}
    (unaffected : Unaffected surroundings (Cursor.Within 0) third third)
    (same : ∀ cursor : Cursor, cursor.ending.kind = .endOfInput → cursor.rest = [] →
      work cursor = third cursor)
    (otherSame : ∀ cursor : Cursor, cursor.ending.kind = .endOfInput → cursor.rest = [] →
      other cursor = third cursor) :
    Unaffected surroundings (Cursor.Within 0) work other := by
  intro cursor within
  have nothing : cursor.rest = [] := List.eq_nil_of_length_eq_zero (Nat.le_zero.mp within.bound)
  obtain ⟨onward, thirdSame⟩ := unaffected cursor within
  rw [same cursor within.closed nothing]
  refine ⟨onward, fun unseen => ?_⟩
  obtain nonempty | ⟨none, sameEnding⟩ := unseen.of_onward onward
  · exact absurd nothing nonempty
  · have closed : (cursor.amid surroundings).ending.kind = .endOfInput := by
      simp [Cursor.amid, sameEnding, within.closed]
    rw [otherSame _ closed (by simp [Cursor.amid, nothing, none])]
    exact thirdSame unseen

end Unaffected

theorem unaffected_peek : Unaffected surroundings (Cursor.Within count) peek peek := by
  intro cursor within
  refine ⟨.refl cursor, fun (unseen : surroundings.OutOfSight cursor) => ?_⟩
  have same := unseen.current_eq
  simp only [peek, same, resultAmid]

theorem unaffected_check (kind : Kind) :
    Unaffected surroundings (Cursor.Within count) (check kind) (check kind) := by
  intro cursor within
  refine ⟨.refl cursor, fun (unseen : surroundings.OutOfSight cursor) => ?_⟩
  have same := unseen.head?_eq
  simp only [check, same, resultAmid]

theorem unaffected_acceptAny (wanted : List Kind) :
    Unaffected surroundings (Cursor.Within count) (acceptAny wanted) (acceptAny wanted) := by
  rw [← bind_pure (acceptAny wanted)]
  exact .acceptAny_bind (fun token _ => .pure (some token)) (.pure none)

theorem unaffected_accept (kind : Kind) :
    Unaffected surroundings (Cursor.Within count) (accept kind) (accept kind) :=
  unaffected_acceptAny [kind]

theorem unaffected_noExpression :
    Unaffected surroundings (Cursor.Within count) (noExpression : Parse α) noExpression :=
  unaffected_peek.bind fun _ => .throw _

theorem unaffected_expect (kind : Kind) (message : String) :
    Unaffected surroundings (Cursor.Within count) (expect kind message) (expect kind message) := by
  apply (unaffected_accept kind).bind
  intro found
  cases found with
  | some token => exact .pure token
  | none => exact unaffected_peek.bind fun token => .throw _

theorem unaffected_addNode (node : Node) :
    Unaffected surroundings (Cursor.Within count) (addNode node) (addNode node) :=
  fun cursor _ => ⟨onward_addNode node cursor, fun _ => rfl⟩

theorem unaffected_add (kind : NodeKind) (token : Token) (children : List (Option NodeId)) :
    Unaffected surroundings (Cursor.Within count) (add kind token children)
      (add kind token children) :=
  unaffected_addNode _

theorem unaffected_record (fault : Fault) :
    Unaffected surroundings (Cursor.Within count) (record fault) (record fault) := by
  intro cursor within
  refine ⟨onward_record fault cursor, fun _ => ?_⟩
  simp [record, resultAmid, Cursor.amid]

/-- Items between commas are read alike by two loops that both have rounds enough. -/
theorem unaffected_separated
    {item otherItem : Parse NodeId}
    (unaffected : Unaffected surroundings (Cursor.Within count) item otherItem)
    {rounds otherRounds : Nat}
    (enough : count < rounds)
    (otherEnough : count < otherRounds)
    (found : Array (Option NodeId)) :
    Unaffected surroundings (Cursor.Within count) (separated item rounds found)
      (separated otherItem otherRounds found) := by
  induction rounds generalizing count otherRounds found with
  | zero => omega
  | succ rounds inductionHypothesis =>
      obtain ⟨otherRounds, rfl⟩ : ∃ fewer, otherRounds = fewer + 1 := ⟨otherRounds - 1, by omega⟩
      refine unaffected.bind fun id => .acceptAny_bind (fun comma positive => ?_) (.pure _)
      exact inductionHypothesis (unaffected.fewer (Nat.sub_le ..)) (by omega) (by omega) _

theorem unaffected_itemsBefore
    {item otherItem : Parse NodeId}
    (unaffected : Unaffected surroundings (Cursor.Within count) item otherItem)
    {rounds otherRounds : Nat}
    (enough : count < rounds)
    (otherEnough : count < otherRounds)
    (closing : Kind) :
    Unaffected surroundings (Cursor.Within count) (itemsBefore closing item rounds)
      (itemsBefore closing otherItem otherRounds) := by
  apply (unaffected_check closing).bind
  intro closes
  cases closes with
  | true => exact .pure []
  | false =>
      exact (unaffected_separated unaffected enough otherEnough #[]).bind fun all =>
        .pure all.toList

section Rules

variable {read otherRead : Phrase → Parse NodeId}
  (unaffected : ∀ phrase,
    Unaffected surroundings (Cursor.Within count) (read phrase) (otherRead phrase))
  {rounds otherRounds : Nat} (enough : count < rounds) (otherEnough : count < otherRounds)

include unaffected enough otherEnough

theorem unaffected_primary :
    Unaffected surroundings (Cursor.Within (count + 1)) (primary read rounds)
      (primary otherRead otherRounds) := by
  refine .peek_bind fun token => ?_
  cases spelled : constantOf? token with
  | some constant =>
      have inside : token.kind ≠ .endOfInput := by
        intro ends
        simp [constantOf?, ends] at spelled
      exact .skip_bind inside (unaffected_addNode _)
  | none =>
      cases kind : token.kind with
      | identifier => exact .skip_bind (by simp [kind]) (unaffected_add _ _ _)
      | leftParen =>
          exact .skip_bind (by simp [kind]) ((unaffected _).bind fun inner =>
            (unaffected_expect _ _).bind fun _ => unaffected_add _ _ _)
      | leftBracket =>
          exact .skip_bind (by simp [kind])
            ((unaffected_itemsBefore (unaffected _) enough otherEnough _).bind fun elements =>
              (unaffected_expect _ _).bind fun _ => unaffected_add _ _ _)
      | _ => exact unaffected_noExpression.facing

omit unaffected enough otherEnough in
/-- Where nothing is left, nothing is applied. -/
theorem applications_of_nil
    (remaining : Nat)
    (target : NodeId)
    {cursor : Cursor}
    (nothing : cursor.rest = []) :
    applications read rounds remaining target cursor = .ok target cursor := by
  cases remaining with
  | zero => rfl
  | succ remaining =>
      obtain ⟨rest, ending, arena, faults⟩ := cursor
      obtain rfl : rest = [] := nothing
      rfl

/-- The calls and indexings that follow are read alike by two loops that both have a round
for every token that is left. -/
theorem unaffected_applications
    {left remaining otherRemaining : Nat}
    (few : left ≤ count + 1)
    (ample : left ≤ remaining)
    (otherAmple : left ≤ otherRemaining)
    (target : NodeId) :
    Unaffected surroundings (Cursor.Within left) (applications read rounds remaining target)
      (applications otherRead otherRounds otherRemaining target) := by
  induction left generalizing remaining otherRemaining target with
  | zero =>
      exact .of_nil (.pure target) (fun cursor _ => applications_of_nil remaining target)
        (fun cursor _ => applications_of_nil otherRemaining target)
  | succ left inductionHypothesis =>
      obtain ⟨remaining, rfl⟩ : ∃ fewer, remaining = fewer + 1 := ⟨remaining - 1, by omega⟩
      obtain ⟨otherRemaining, rfl⟩ : ∃ fewer, otherRemaining = fewer + 1 :=
        ⟨otherRemaining - 1, by omega⟩
      have inside : ∀ phrase, Unaffected surroundings (Cursor.Within left)
          (read phrase) (otherRead phrase) :=
        fun phrase => (unaffected phrase).fewer (by omega)
      have following : ∀ target, Unaffected surroundings (Cursor.Within left)
          (applications read rounds remaining target)
          (applications otherRead otherRounds otherRemaining target) :=
        fun target => inductionHypothesis (by omega) (by omega) (by omega) target
      refine .acceptAny_bind (fun opening _ => ?_)
        (.acceptAny_bind (fun opening _ => ?_) (.pure target))
      · exact (unaffected_itemsBefore (inside _) (by omega) (by omega) _).bind fun _ =>
          (unaffected_expect _ _).bind fun _ => (unaffected_add _ _ _).bind following
      · exact (inside _).bind fun _ => (unaffected_expect _ _).bind fun _ =>
          (unaffected_add _ _ _).bind following

theorem unaffected_unary :
    Unaffected surroundings (Cursor.Within (count + 1)) (unary read rounds)
      (unary otherRead otherRounds) := by
  refine .acceptAny_bind (fun operator _ => ?_) ?_
  · exact (unaffected _).bind fun _ => unaffected_add _ _ _
  · exact (unaffected_primary unaffected enough otherEnough).bind fun target =>
      unaffected_applications unaffected enough otherEnough (Nat.le_refl _) enough otherEnough
        target

omit unaffected enough otherEnough in
/-- Where nothing is left, no operator is. -/
theorem chain_of_nil
    (level : Level)
    (operand : Parse NodeId)
    (remaining : Nat)
    (left : NodeId)
    {cursor : Cursor}
    (nothing : cursor.rest = []) :
    chain level operand remaining left cursor = .ok left cursor := by
  cases remaining with
  | zero => rfl
  | succ remaining =>
      obtain ⟨rest, ending, arena, faults⟩ := cursor
      obtain rfl : rest = [] := nothing
      rfl

omit unaffected enough otherEnough in
/-- The operators of a level are read alike by two loops that both have a round for every
token that is left. -/
theorem unaffected_chain
    (level : Level)
    {operand otherOperand : Parse NodeId}
    {left remaining otherRemaining : Nat}
    (operandUnaffected : Unaffected surroundings (Cursor.Within left) operand otherOperand)
    (ample : left ≤ remaining)
    (otherAmple : left ≤ otherRemaining)
    (target : NodeId) :
    Unaffected surroundings (Cursor.Within left) (chain level operand remaining target)
      (chain level otherOperand otherRemaining target) := by
  induction left generalizing remaining otherRemaining target with
  | zero =>
      exact .of_nil (.pure target) (fun cursor _ => chain_of_nil level operand remaining target)
        (fun cursor _ => chain_of_nil level otherOperand otherRemaining target)
  | succ left inductionHypothesis =>
      obtain ⟨remaining, rfl⟩ : ∃ fewer, remaining = fewer + 1 := ⟨remaining - 1, by omega⟩
      obtain ⟨otherRemaining, rfl⟩ : ∃ fewer, otherRemaining = fewer + 1 :=
        ⟨otherRemaining - 1, by omega⟩
      have inside := operandUnaffected.fewer (Nat.le_succ left)
      refine .acceptAny_bind (fun operator _ => ?_) (.pure target)
      exact inside.bind fun _ => (unaffected_add _ _ _).bind fun joined =>
        inductionHypothesis inside (by omega) (by omega) joined

theorem unaffected_binary (levels : List Level) :
    Unaffected surroundings (Cursor.Within (count + 1)) (binary read rounds levels)
      (binary otherRead otherRounds levels) := by
  induction levels with
  | nil => exact unaffected_unary unaffected enough otherEnough
  | cons level tighter inductionHypothesis =>
      exact inductionHypothesis.bind fun left =>
        unaffected_chain level inductionHypothesis enough otherEnough left

omit unaffected enough otherEnough in
/-- Whether the target of an assignment is a name is seen in the arena, which is the same
amid the surroundings. -/
theorem unaffected_assigned (equals : Token) (target value : NodeId) (found : Option Node) :
    Unaffected surroundings (Cursor.Within count) (assigned equals target value found)
      (assigned equals target value found) := by
  obtain ⟨node, -, -, same⟩ | same := assigned_eq_or equals target value found
  · rw [same]
    exact unaffected_add _ _ _
  · rw [same]
    exact (unaffected_record _).bind fun _ => .pure target

theorem unaffected_expression :
    Unaffected surroundings (Cursor.Within (count + 1)) (expression read rounds)
      (expression otherRead otherRounds) := by
  refine (unaffected_binary unaffected enough otherEnough levels).bind fun target =>
    .acceptAny_bind (fun equals _ => ?_) (.pure target)
  apply (unaffected _).bind
  intro value cursor within
  exact unaffected_assigned equals target value (cursor.arena.get? target) cursor within

omit enough otherEnough in
theorem unaffected_variableDeclaration :
    Unaffected surroundings (Cursor.Within count) (variableDeclaration read)
      (variableDeclaration otherRead) := by
  refine (unaffected_expect _ _).bind fun name => (unaffected_accept _).bind fun equals => ?_
  have following : ∀ initializer : Option NodeId,
      Unaffected surroundings (Cursor.Within count)
        (do
          let _ ← expect .semicolon "expected ';' after variable declaration"
          add .declaration name [initializer])
        (do
          let _ ← expect .semicolon "expected ';' after variable declaration"
          add .declaration name [initializer]) :=
    fun initializer => (unaffected_expect _ _).bind fun _ => unaffected_add _ _ _
  cases equals with
  | some _ => exact ((unaffected _).map some).bind following
  | none => exact (Unaffected.pure none).bind following

omit enough otherEnough in
theorem unaffected_attempt :
    Unaffected surroundings (Cursor.Within count) (attempt read) (attempt otherRead) := by
  refine (unaffected_accept _).bind fun word => ?_
  cases word with
  | some _ => exact unaffected_variableDeclaration unaffected
  | none => exact unaffected _

/-- A reading that cannot fail does amid the surroundings what it does without them,
whenever it does not come to see them. -/
def UnaffectedState
    (surroundings : Surroundings)
    (holds : Cursor → Prop)
    (work other : StateM Cursor α) : Prop :=
  ∀ cursor : Cursor, holds cursor →
    cursor.Onward (work cursor).2 ∧
      (surroundings.OutOfSight (work cursor).2 →
        other (cursor.amid surroundings) =
          ((work cursor).1, (work cursor).2.amid surroundings))

omit unaffected enough otherEnough in
/-- Where reading goes on is the same with other tokens behind it. -/
theorem resume_append
    {tokens : List Token}
    (left : resume tokens ≠ [])
    (following : List Token) :
    resume (tokens ++ following) = resume tokens ++ following := by
  fun_induction resume tokens with
  | case1 => exact absurd rfl left
  | case2 token rest isSemicolon => simp [resume, isSemicolon]
  | case3 token => exact absurd rfl left
  | case4 token notSemicolon next others opens =>
      simp [resume_cons_cons, notSemicolon, opens]
  | case5 token notSemicolon next others opens inductionHypothesis =>
      rw [List.cons_append, List.cons_append, resume_cons_cons, if_neg notSemicolon, if_neg opens]
      exact inductionHypothesis left

omit unaffected enough otherEnough in
theorem unaffected_recovering
    {work other : Parse NodeId}
    (workUnaffected : Unaffected surroundings (Cursor.Within count) work other) :
    UnaffectedState surroundings (Cursor.Within count) (recovering work) (recovering other) := by
  intro cursor within
  obtain ⟨onward, same⟩ := workUnaffected cursor within
  cases equation : work cursor with
  | ok id later =>
      rw [equation] at onward same
      rw [recovering_of_ok equation]
      exact ⟨onward, fun unseen => recovering_of_ok (same unseen)⟩
  | error fault later =>
      rw [equation] at onward same
      rw [recovering_of_error equation]
      have resumed : later.Onward
          { later with faults := later.faults.push fault, rest := resume later.rest } :=
        ⟨resume_suffix _, rfl, Arena.le_refl _, by simp⟩
      refine ⟨onward.trans resumed, fun unseen => ?_⟩
      rw [recovering_of_error (same (unseen.of_onward resumed))]
      have sameRest : resume (later.rest ++ surroundings.following) =
          resume later.rest ++ surroundings.following := by
        obtain left | ⟨nothing, -⟩ := unseen
        · exact resume_append left _
        · simp [nothing]
      simp [Cursor.amid, sameRest]

omit enough otherEnough in
theorem unaffected_declaration :
    UnaffectedState surroundings (Cursor.Within count) (declaration read)
      (declaration otherRead) :=
  unaffected_recovering (unaffected_attempt unaffected)

omit enough otherEnough in
/-- Declarations are read alike by two loops that both have a round for every token that
is left, since each of them takes one. -/
theorem unaffected_declarationsBefore
    (onward : ∀ phrase, GoesOnward (read phrase))
    (takes : Takes (read .statement))
    (closing : Option Kind)
    {left remaining otherRemaining : Nat}
    (few : left ≤ count)
    (ample : left ≤ remaining)
    (otherAmple : left ≤ otherRemaining)
    (found : Array (Option NodeId)) :
    UnaffectedState surroundings (Cursor.Within left)
      (declarationsBefore read closing remaining found)
      (declarationsBefore otherRead closing otherRemaining found) := by
  have atEnd : ∀ (remaining otherRemaining : Nat) (found : Array (Option NodeId)),
      UnaffectedState surroundings (fun cursor => cursor.rest = [])
        (declarationsBefore read closing remaining found)
        (declarationsBefore otherRead closing otherRemaining found) := by
    intro remaining otherRemaining found cursor nothing
    rw [declarationsBefore_of_nil nothing]
    refine ⟨.refl cursor, fun unseen => ?_⟩
    obtain nonempty | ⟨none, -⟩ := unseen
    · exact absurd nothing nonempty
    · exact declarationsBefore_of_nil (by simp [Cursor.amid, nothing, none])
  induction left generalizing remaining otherRemaining found with
  | zero =>
      intro cursor within
      exact atEnd _ _ _ cursor (List.eq_nil_of_length_eq_zero (Nat.le_zero.mp within.bound))
  | succ left inductionHypothesis =>
      intro cursor within
      obtain ⟨remaining, rfl⟩ : ∃ fewer, remaining = fewer + 1 := ⟨remaining - 1, by omega⟩
      obtain ⟨otherRemaining, rfl⟩ : ∃ fewer, otherRemaining = fewer + 1 :=
        ⟨otherRemaining - 1, by omega⟩
      cases front : cursor.rest with
      | nil => exact atEnd _ _ _ cursor front
      | cons token others =>
          have otherFront : (cursor.amid surroundings).rest =
              token :: (others ++ surroundings.following) := by
            simp [Cursor.amid, front]
          by_cases closes : some token.kind = closing
          · rw [declarationsBefore_of_closing front closes]
            exact ⟨.refl cursor, fun _ => declarationsBefore_of_closing otherFront closes⟩
          · rw [declarationsBefore_succ front closes]
            obtain ⟨before, same⟩ :=
              unaffected_declaration unaffected cursor (within.mono few)
            have shorter := declaration_shorter onward takes within.closed (by simp [front])
            have bound := within.bound
            obtain ⟨after, othersSame⟩ := inductionHypothesis (Nat.le_of_succ_le few)
              (Nat.le_of_succ_le_succ ample) (Nat.le_of_succ_le_succ otherAmple)
              (found.push (declaration read cursor).1) (declaration read cursor).2
              ⟨before.ending ▸ within.closed, by omega⟩
            refine ⟨before.trans after, fun unseen => ?_⟩
            rw [declarationsBefore_succ otherFront closes, same (unseen.of_onward after)]
            exact othersSame unseen

omit unaffected enough otherEnough in
theorem unaffected_unfailing
    {holds : Cursor → Prop}
    {work other : StateM Cursor α}
    (workUnaffected : UnaffectedState surroundings holds work other) :
    Unaffected surroundings holds (unfailing work) (unfailing other) := by
  intro cursor held
  obtain ⟨onward, same⟩ := workUnaffected cursor held
  refine ⟨onward, fun unseen => ?_⟩
  simp only [unfailing, same unseen]
  rfl

theorem unaffected_blockRest
    (onward : ∀ phrase, GoesOnward (read phrase))
    (takes : Takes (read .statement)) :
    Unaffected surroundings (Cursor.Within count) (blockRest read rounds)
      (blockRest otherRead otherRounds) :=
  (unaffected_unfailing (unaffected_declarationsBefore unaffected onward takes _ (Nat.le_refl _)
    (Nat.le_of_lt enough) (Nat.le_of_lt otherEnough) #[])).bind fun found =>
    (unaffected_expect _ _).bind fun _ => .pure found

omit unaffected enough otherEnough in
theorem unaffected_parameter :
    Unaffected surroundings (Cursor.Within count) parameter parameter :=
  (unaffected_expect _ _).bind fun _ => unaffected_add _ _ _

theorem unaffected_functionDeclaration
    (onward : ∀ phrase, GoesOnward (read phrase))
    (takes : Takes (read .statement)) :
    Unaffected surroundings (Cursor.Within count) (functionDeclaration read rounds)
      (functionDeclaration otherRead otherRounds) :=
  (unaffected_expect _ _).bind fun _ => (unaffected_expect _ _).bind fun _ =>
    (unaffected_itemsBefore unaffected_parameter enough otherEnough _).bind fun _ =>
    (unaffected_expect _ _).bind fun _ => (unaffected_expect _ _).bind fun _ =>
    (unaffected_blockRest unaffected enough otherEnough onward takes).bind fun _ =>
    (unaffected_add _ _ _).bind fun _ => unaffected_add _ _ _

omit enough otherEnough in
theorem unaffected_branch (keyword : Token) :
    Unaffected surroundings (Cursor.Within count) (branch read keyword)
      (branch otherRead keyword) := by
  refine (unaffected_expect _ _).bind fun _ => (unaffected _).bind fun condition =>
    (unaffected_expect _ _).bind fun _ => (unaffected _).bind fun consequence =>
    (unaffected_accept _).bind fun other => ?_
  cases other with
  | some _ => exact ((unaffected _).map some).bind fun _ => unaffected_add _ _ _
  | none => exact (Unaffected.pure none).bind fun _ => unaffected_add _ _ _

omit enough otherEnough in
theorem unaffected_loop (keyword : Token) :
    Unaffected surroundings (Cursor.Within count) (loop read keyword) (loop otherRead keyword) :=
  (unaffected_expect _ _).bind fun _ => (unaffected _).bind fun _ =>
    (unaffected_expect _ _).bind fun _ => (unaffected _).bind fun _ => unaffected_add _ _ _

omit enough otherEnough in
theorem unaffected_giveBack (keyword : Token) :
    Unaffected surroundings (Cursor.Within count) (giveBack read keyword)
      (giveBack otherRead keyword) := by
  apply (unaffected_check _).bind
  intro empty
  have following : ∀ value : Option NodeId,
      Unaffected surroundings (Cursor.Within count)
        (do
          let _ ← expect .semicolon "expected ';' after return value"
          add .giveBack keyword [value])
        (do
          let _ ← expect .semicolon "expected ';' after return value"
          add .giveBack keyword [value]) :=
    fun value => (unaffected_expect _ _).bind fun _ => unaffected_add _ _ _
  cases empty with
  | true => exact (Unaffected.pure none).bind following
  | false => exact ((unaffected _).map some).bind following

theorem unaffected_statement
    (onward : ∀ phrase, GoesOnward (read phrase))
    (takes : Takes (read .statement)) :
    Unaffected surroundings (Cursor.Within (count + 1)) (statement read rounds)
      (statement otherRead otherRounds) := by
  refine .peek_bind fun token => ?_
  split
  next kind =>
      exact .skip_bind (by simp [kind])
        (unaffected_functionDeclaration unaffected enough otherEnough onward takes)
  next kind =>
      exact .skip_bind (by simp [kind]) ((unaffected _).bind fun _ =>
        (unaffected_expect _ _).bind fun _ => unaffected_add _ _ _)
  next kind => exact .skip_bind (by simp [kind]) (unaffected_branch unaffected token)
  next kind => exact .skip_bind (by simp [kind]) (unaffected_loop unaffected token)
  next kind => exact .skip_bind (by simp [kind]) (unaffected_giveBack unaffected token)
  next kind =>
      exact .skip_bind (by simp [kind])
        ((unaffected_blockRest unaffected enough otherEnough onward takes).bind fun _ =>
          unaffected_add _ _ _)
  next =>
      exact ((unaffected_expression unaffected enough otherEnough).bind fun _ =>
        (unaffected_expect _ _).bind fun _ => unaffected_add _ _ _).facing

theorem unaffected_rule
    (onward : ∀ phrase, GoesOnward (read phrase))
    (takes : Takes (read .statement))
    (phrase : Phrase) :
    Unaffected surroundings (Cursor.Within (count + 1)) (phrase.rule read rounds)
      (phrase.rule otherRead otherRounds) := by
  cases phrase with
  | statement => exact unaffected_statement unaffected enough otherEnough onward takes
  | expression => exact unaffected_expression unaffected enough otherEnough
  | unary => exact unaffected_unary unaffected enough otherEnough

end Rules

/-- Reading a phrase is not affected by surroundings that it does not come to see, within
any two counts that are large enough. -/
theorem unaffected_readWithin
    (left count otherCount : Nat)
    (enough : left ≤ count)
    (otherEnough : left ≤ otherCount)
    (phrase : Phrase) :
    Unaffected surroundings (Cursor.Within left) (phrase.readWithin count)
      (phrase.readWithin otherCount) := by
  induction left generalizing count otherCount phrase with
  | zero =>
      exact .of_nil unaffected_noExpression
        (fun _ closed nothing => readWithin_at_end closed nothing count phrase)
        (fun _ closed nothing => readWithin_at_end closed nothing otherCount phrase)
  | succ left inductionHypothesis =>
      obtain ⟨count, rfl⟩ : ∃ fewer, count = fewer + 1 := ⟨count - 1, by omega⟩
      obtain ⟨otherCount, rfl⟩ : ∃ fewer, otherCount = fewer + 1 := ⟨otherCount - 1, by omega⟩
      intro cursor within
      rw [readWithin_succ, readWithin_succ]
      exact unaffected_rule
        (inductionHypothesis count otherCount (by omega) (by omega)) (by omega) (by omega)
        (onward_readWithin count) (takes_readWithin count) phrase cursor within

end Tree
end Scripting
