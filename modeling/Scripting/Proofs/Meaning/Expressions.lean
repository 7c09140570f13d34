import Scripting.Proofs.Meaning.Work

/-!
# The rules for expressions on machines

Within one bound more, a machine does for an expression what the rules make of what it
does for the parts.
-/

namespace Scripting
namespace Meaning

open Tree (Arena Expression Statement)
open Tree.Rose (AllStandAt)

variable {context : Context} {state between later : State} {fault : Fault} {value : Value}
  {bound rounds : Nat}

namespace Carries

/-! ## Expressions -/

section Expressions

variable {outcome : Except Fault Value} {expression left right : Expression} {token : Token}

theorem of_evaluateNode
    (carries : ∀ ⦃machine : Machine⦄ ⦃id : Option Tree.NodeId⦄,
      Represents context state machine → expression.rose.StandsAt machine.arena id →
      Gives context ((Run.within bound).evaluateNode id) machine outcome later) :
    Carries (Run.within (bound + 1)) rounds (.evaluate expression) context state outcome later := by
  intro machine work represents performs
  cases performs with
  | evaluate stands => exact .of_eq (evaluate_succ bound _ machine) (carries represents stands)

/-- An expression fails if the one fails with which it begins. -/
theorem evaluate_error
    {whole : Expression}
    (first : Carries (Run.within bound) bound (.evaluate expression) context state (.error fault)
      later)
    (begins : ∀ ⦃machine : Machine⦄ ⦃id : Option Tree.NodeId⦄,
      whole.rose.StandsAt machine.arena id →
      ∃ below next, expression.rose.StandsAt machine.arena below ∧
        (Run.within bound).evaluateNode id machine =
          ((Run.within bound).evaluate below >>= next) machine) :
    Carries (Run.within (bound + 1)) rounds (.evaluate whole) context state (.error fault)
      later := by
  apply of_evaluateNode
  intro machine id represents stands
  obtain ⟨below, next, atBelow, equation⟩ := begins stands
  exact .of_eq equation (first represents (.evaluate atBelow)).bind_error

theorem constant {constant : Tree.Constant} :
    Carries (Run.within (bound + 1)) rounds (.evaluate (.constant token constant)) context state
      (.ok (.ofConstant constant)) state :=
  of_evaluateNode fun _ _ represents stands =>
    .still represents (evaluateNode_constant _ stands)

theorem mention :
    Carries (Run.within (bound + 1)) rounds (.evaluate (.mention token)) context state
      (state.get context.scope token) state :=
  of_evaluateNode fun _ _ represents stands =>
    .of_eq (evaluateNode_mention _ stands) (represents.valueOf token)

theorem group
    (inner : Carries (Run.within bound) bound (.evaluate expression) context state outcome later) :
    Carries (Run.within (bound + 1)) rounds (.evaluate (.group token expression)) context state
      outcome later := by
  apply of_evaluateNode
  intro machine id represents stands
  obtain ⟨below, atBelow, equation⟩ := evaluateNode_group _ stands
  exact .of_eq equation (inner represents (.evaluate atBelow))

theorem array
    {items : List Expression}
    {elements : List Value}
    (all :
      Carries (Run.within bound) bound (.evaluateAll items) context state (.ok elements) later) :
    Carries (Run.within (bound + 1)) rounds (.evaluate (.array token items)) context state
      (.ok (.array later.arrays.size)) (later.addArray elements.toArray) := by
  apply of_evaluateNode
  intro machine id represents stands
  obtain ⟨ids, atIds, equation⟩ := evaluateNode_array _ stands
  exact .of_eq equation ((all represents (.evaluateAll atIds)).bind fun after same _ =>
    same.newArray elements.toArray)

theorem arrayFails
    {items : List Expression}
    (all :
      Carries (Run.within bound) bound (.evaluateAll items) context state (.error fault) later) :
    Carries (Run.within (bound + 1)) rounds (.evaluate (.array token items)) context state
      (.error fault) later := by
  apply of_evaluateNode
  intro machine id represents stands
  obtain ⟨ids, atIds, equation⟩ := evaluateNode_array _ stands
  exact .of_eq equation (all represents (.evaluateAll atIds)).bind_error

theorem unary
    (operand :
      Carries (Run.within bound) bound (.evaluate expression) context state outcome later) :
    Carries (Run.within (bound + 1)) rounds (.evaluate (.unary token expression)) context state
      (outcome.bind (unaryValue token)) later := by
  apply of_evaluateNode
  intro machine id represents stands
  obtain ⟨below, atBelow, equation⟩ := evaluateNode_unary _ stands
  exact .of_eq equation ((operand represents (.evaluate atBelow)).bind_still fun _ _ _ =>
    ended_unaryValue token _)

theorem binary
    (first : Carries (Run.within bound) bound (.evaluate left) context state (.ok value) between)
    (second : Carries (Run.within bound) bound (.evaluate right) context between outcome later) :
    Carries (Run.within (bound + 1)) rounds (.evaluate (.binary token left right)) context state
      (outcome.bind (binaryValue later token value)) later := by
  apply of_evaluateNode
  intro machine id represents stands
  obtain ⟨one, other, atOne, atOther, equation⟩ := evaluateNode_binary _ stands
  apply Gives.of_eq equation
  apply (first represents (.evaluate atOne)).bind
  intro after same before
  -- The left operand may have added nodes, so the right one stands in a later arena.
  exact (second same (.evaluate (atOther.mono before))).bind_still fun _ _ last =>
    ended_binaryValue last _ _ _

theorem binaryFails
    (first : Carries (Run.within bound) bound (.evaluate left) context state (.error fault) later) :
    Carries (Run.within (bound + 1)) rounds (.evaluate (.binary token left right)) context state
      (.error fault) later := by
  apply evaluate_error first
  intro machine id stands
  obtain ⟨one, other, atOne, -, equation⟩ := evaluateNode_binary _ stands
  exact ⟨one, _, atOne, equation⟩

theorem decided
    (first : Carries (Run.within bound) bound (.evaluate left) context state (.ok value) later)
    (decided : decides token value = true) :
    Carries (Run.within (bound + 1)) rounds (.evaluate (.logical token left right)) context state
      (.ok value) later := by
  apply of_evaluateNode
  intro machine id represents stands
  obtain ⟨one, other, atOne, -, equation⟩ := evaluateNode_logical _ stands
  apply Gives.of_eq equation
  apply (first represents (.evaluate atOne)).bind
  intro after same _
  rw [if_pos decided]
  exact .pure same value

theorem undecided
    (first : Carries (Run.within bound) bound (.evaluate left) context state (.ok value) between)
    (undecided : decides token value = false)
    (second : Carries (Run.within bound) bound (.evaluate right) context between outcome later) :
    Carries (Run.within (bound + 1)) rounds (.evaluate (.logical token left right)) context state
      outcome later := by
  apply of_evaluateNode
  intro machine id represents stands
  obtain ⟨one, other, atOne, atOther, equation⟩ := evaluateNode_logical _ stands
  apply Gives.of_eq equation
  apply (first represents (.evaluate atOne)).bind
  intro after same before
  rw [if_neg (by simp [undecided])]
  exact second same (.evaluate (atOther.mono before))

theorem logicalFails
    (first : Carries (Run.within bound) bound (.evaluate left) context state (.error fault) later) :
    Carries (Run.within (bound + 1)) rounds (.evaluate (.logical token left right)) context state
      (.error fault) later := by
  apply evaluate_error first
  intro machine id stands
  obtain ⟨one, other, atOne, -, equation⟩ := evaluateNode_logical _ stands
  exact ⟨one, _, atOne, equation⟩

theorem assigned
    (inner : Carries (Run.within bound) bound (.evaluate expression) context state (.ok value)
      between)
    (assigned : between.assign context.scope token value = .ok later) :
    Carries (Run.within (bound + 1)) rounds (.evaluate (.assignment token expression)) context state
      (.ok value) later := by
  apply of_evaluateNode
  intro machine id represents stands
  obtain ⟨below, atBelow, equation⟩ := evaluateNode_assignment _ stands
  apply Gives.of_eq equation
  apply (inner represents (.evaluate atBelow)).bind
  intro after same _
  exact (same.assign assigned).bind fun last changed _ => .pure changed value

theorem unassigned
    (inner :
      Carries (Run.within bound) bound (.evaluate expression) context state (.ok value) later)
    (unassigned : later.assign context.scope token value = .error fault) :
    Carries (Run.within (bound + 1)) rounds (.evaluate (.assignment token expression)) context state
      (.error fault) later := by
  apply of_evaluateNode
  intro machine id represents stands
  obtain ⟨below, atBelow, equation⟩ := evaluateNode_assignment _ stands
  apply Gives.of_eq equation
  apply (inner represents (.evaluate atBelow)).bind
  intro after same _
  exact (same.assign_error unassigned).bind_error

theorem assignmentFails
    (inner : Carries (Run.within bound) bound (.evaluate expression) context state (.error fault)
      later) :
    Carries (Run.within (bound + 1)) rounds (.evaluate (.assignment token expression)) context state
      (.error fault) later := by
  apply evaluate_error inner
  intro machine id stands
  obtain ⟨below, atBelow, equation⟩ := evaluateNode_assignment _ stands
  exact ⟨below, _, atBelow, equation⟩

theorem index
    {target position : Expression}
    (first : Carries (Run.within bound) bound (.evaluate target) context state (.ok value) between)
    (second : Carries (Run.within bound) bound (.evaluate position) context between outcome later) :
    Carries (Run.within (bound + 1)) rounds (.evaluate (.index token target position)) context state
      (outcome.bind (elementAt later token value)) later := by
  apply of_evaluateNode
  intro machine id represents stands
  obtain ⟨one, other, atOne, atOther, equation⟩ := evaluateNode_index _ stands
  apply Gives.of_eq equation
  apply (first represents (.evaluate atOne)).bind
  intro after same before
  exact (second same (.evaluate (atOther.mono before))).bind_still fun _ _ last =>
    ended_elementAt last _ _ _

theorem indexFails
    {target position : Expression}
    (first : Carries (Run.within bound) bound (.evaluate target) context state (.error fault)
      later) :
    Carries (Run.within (bound + 1)) rounds (.evaluate (.index token target position)) context state
      (.error fault) later := by
  apply evaluate_error first
  intro machine id stands
  obtain ⟨one, other, atOne, -, equation⟩ := evaluateNode_index _ stands
  exact ⟨one, _, atOne, equation⟩

end Expressions

/-! ## Calls -/

section Calls

variable {outcome : Except Fault Value} {target : Value} {given : List Value} {paren : Token}
  {function : Expression} {arguments : List Expression}

theorem called
    {before : State}
    {definition : Definition}
    (first : Carries (Run.within bound) bound (.evaluate function) context state (.ok target)
      between)
    (others : Carries (Run.within bound) bound (.evaluateAll arguments) context between (.ok given)
      before)
    (called : callee before context paren target given.length = .ok definition)
    (inside : Carries (Run.within bound) bound (.call definition given) context.inCall before
      outcome later) :
    Carries (Run.within (bound + 1)) rounds (.evaluate (.call paren function arguments)) context
      state (outcome.mapError (·.orAt paren)) later := by
  apply of_evaluateNode
  intro machine id represents stands
  obtain ⟨one, ids, atOne, atIds, equation⟩ := evaluateNode_call _ stands
  apply Gives.of_eq equation
  apply (first represents (.evaluate atOne)).bind
  intro after same onward
  apply (others same (.evaluateAll (atIds.mono onward))).bind
  intro last ready _
  obtain ⟨callable, denotes, call⟩ := callValue_of_ok ready (Run.within bound) called
  exact .of_eq call ((inside ready.inCall (.call given denotes)).inCall ready.context)

theorem uncalled
    (first : Carries (Run.within bound) bound (.evaluate function) context state (.ok target)
      between)
    (others : Carries (Run.within bound) bound (.evaluateAll arguments) context between (.ok given)
      later)
    (uncalled : callee later context paren target given.length = .error fault) :
    Carries (Run.within (bound + 1)) rounds (.evaluate (.call paren function arguments)) context
      state (.error fault) later := by
  apply of_evaluateNode
  intro machine id represents stands
  obtain ⟨one, ids, atOne, atIds, equation⟩ := evaluateNode_call _ stands
  apply Gives.of_eq equation
  apply (first represents (.evaluate atOne)).bind
  intro after same onward
  apply (others same (.evaluateAll (atIds.mono onward))).bind
  intro last ready _
  exact .still ready (callValue_of_error ready (Run.within bound) uncalled)

theorem argumentsFail
    (first : Carries (Run.within bound) bound (.evaluate function) context state (.ok target)
      between)
    (others : Carries (Run.within bound) bound (.evaluateAll arguments) context between
      (.error fault) later) :
    Carries (Run.within (bound + 1)) rounds (.evaluate (.call paren function arguments)) context
      state (.error fault) later := by
  apply of_evaluateNode
  intro machine id represents stands
  obtain ⟨one, ids, atOne, atIds, equation⟩ := evaluateNode_call _ stands
  apply Gives.of_eq equation
  apply (first represents (.evaluate atOne)).bind
  intro after same onward
  exact (others same (.evaluateAll (atIds.mono onward))).bind_error

theorem functionFails
    (first : Carries (Run.within bound) bound (.evaluate function) context state (.error fault)
      later) :
    Carries (Run.within (bound + 1)) rounds (.evaluate (.call paren function arguments)) context
      state (.error fault) later := by
  apply evaluate_error first
  intro machine id stands
  obtain ⟨one, ids, atOne, -, equation⟩ := evaluateNode_call _ stands
  exact ⟨one, _, atOne, equation⟩

end Calls

/-! ## Expressions from left to right -/

section Values

variable {steps : Steps} {expression : Expression} {others : List Expression}

theorem noValues :
    Carries steps rounds (.evaluateAll []) context state (.ok []) state := by
  intro machine work represents performs
  cases performs with
  | evaluateAll stand =>
      obtain rfl := (Tree.Rose.allStandAt_nil _).mp stand
      exact .pure represents _

theorem of_evaluateAll_cons
    {outcome : Except Fault (List Value)}
    (carries : ∀ ⦃machine : Machine⦄ ⦃id : Option Tree.NodeId⦄ ⦃ids : List (Option Tree.NodeId)⦄,
      Represents context state machine → expression.rose.StandsAt machine.arena id →
      AllStandAt machine.arena (Expression.roses others) ids →
      Gives context (values steps (id :: ids)) machine outcome later) :
    Carries steps rounds (.evaluateAll (expression :: others)) context state outcome later := by
  intro machine work represents performs
  cases performs with
  | evaluateAll stand =>
      rw [Expression.roses_cons] at stand
      obtain ⟨id, ids, rfl, atId, atIds⟩ := (Tree.Rose.allStandAt_cons ..).mp stand
      exact carries represents atId atIds

theorem moreValues
    {outcome : Except Fault (List Value)}
    (first : Carries steps rounds (.evaluate expression) context state (.ok value) between)
    (rest : Carries steps rounds (.evaluateAll others) context between outcome later) :
    Carries steps rounds (.evaluateAll (expression :: others)) context state
      (outcome.map (value :: ·)) later := by
  apply of_evaluateAll_cons
  intro machine id ids represents atId atIds
  apply (first represents (.evaluate atId)).bind
  intro after same before
  exact (rest same (.evaluateAll (atIds.mono before))).map (value :: ·)

theorem valueFails
    (first : Carries steps rounds (.evaluate expression) context state (.error fault) later) :
    Carries steps rounds (.evaluateAll (expression :: others)) context state (.error fault)
      later := by
  apply of_evaluateAll_cons
  intro machine id ids represents atId atIds
  exact (first represents (.evaluate atId)).bind_error

end Values

end Carries

end Meaning
end Scripting
