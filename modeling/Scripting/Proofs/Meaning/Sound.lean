import Scripting.Proofs.Meaning.Ends
import Scripting.Proofs.Meaning.Work

/-!
# What is computed follows from the rules

Whenever work for a task ends without using up its bound, the rules say how the task
ends, and they say the same.  The induction is on the bound.

Main statement: `sound_within`.
-/

namespace Scripting
namespace Meaning

open Tree (Expression Statement)
open Tree.Rose (AllStandAt allStandAt_nil allStandAt_cons standsAt_absent)

/-- Whatever the steps come to follows from the rules. -/
structure Sound (steps : Steps) : Prop where
  evaluate {context : Context} {state : State} {machine : Machine} {expression : Expression}
    {id : Option Tree.NodeId} :
    Represents context state machine → expression.rose.StandsAt machine.arena id →
    Ends context (steps.evaluate id) machine (Runs (.evaluate expression) context state)
  execute {context : Context} {state : State} {machine : Machine} {statement : Statement}
    {id : Option Tree.NodeId} :
    Represents context state machine → statement.rose.StandsAt machine.arena id →
    Ends context (steps.execute id) machine (Runs (.execute statement) context state)
  program {context : Context} {state : State} {machine : Machine} {statements : List Statement}
    {ending : Token} {id : Option Tree.NodeId} :
    Represents context state machine →
    (Tree.programRose ending statements).StandsAt machine.arena id →
    Ends context (steps.execute id) machine (Runs (.executeAll statements) context state)
  call {context : Context} {state : State} {machine : Machine} {callable : Callable}
    {definition : Definition} (arguments : List Value) :
    Represents context state machine → Denotes machine.arena callable definition →
    Ends context (steps.call callable arguments) machine
      (Runs (.call definition arguments) context state)
  /-- What is left out is null. -/
  nothing {context : Context} {state : State} {machine : Machine} :
    Represents context state machine →
    Ends context (steps.evaluate none) machine fun outcome later =>
      outcome = .ok .null ∧ later = state
  /-- A statement that is left out does nothing. -/
  normal {context : Context} {state : State} {machine : Machine} :
    Represents context state machine →
    Ends context (steps.execute none) machine fun outcome later =>
      outcome = .ok .normal ∧ later = state

namespace Sound

variable {steps : Steps} (sound : Sound steps) {context : Context} {state : State}
  {machine : Machine} {id : Option Tree.NodeId} (represents : Represents context state machine)

include sound represents

/-! ## Expressions -/

theorem values
    {expressions : List Expression}
    {ids : List (Option Tree.NodeId)}
    (stand : AllStandAt machine.arena (Expression.roses expressions) ids) :
    Ends context (values steps ids) machine (Runs (.evaluateAll expressions) context state) := by
  induction expressions generalizing state machine ids with
  | nil =>
      rw [Expression.roses_nil, allStandAt_nil] at stand
      subst stand
      exact .still represents rfl .noValues
  | cons expression others inductionHypothesis =>
      rw [Expression.roses_cons] at stand
      obtain ⟨id, rest, rfl, atId, atRest⟩ := (allStandAt_cons ..).mp stand
      apply (sound.evaluate represents atId).bind fun _ _ first => .valueFails first
      intro value between after first same before
      apply (inductionHypothesis same (atRest.mono before)).bind fun _ _ rest =>
        .moreValues first rest
      intro following later last rest left _
      exact .still left rfl (.moreValues first rest)

theorem callNode
    {paren : Token}
    {function : Expression}
    {arguments : List Expression}
    (stands : (Expression.call paren function arguments).rose.StandsAt machine.arena id) :
    Ends context (steps.evaluateNode id) machine
      (Runs (.evaluate (.call paren function arguments)) context state) := by
  obtain ⟨one, ids, atOne, atIds, equation⟩ := evaluateNode_call steps stands
  apply Ends.of_eq equation
  apply (sound.evaluate represents atOne).bind fun _ _ first => .functionFails first
  intro target between after first same before
  apply (sound.values same (atIds.mono before)).bind fun _ _ others => .argumentsFail first others
  intro given ready last others same _
  cases called : callee ready context paren target given.length with
  | error fault =>
      exact .still same (callValue_of_error same steps called) (.uncalled first others called)
  | ok definition =>
      obtain ⟨callable, denotes, call⟩ := callValue_of_ok same steps called
      apply Ends.of_eq call
      exact (sound.call given same.inCall denotes).inCall same.context fun _ _ inside =>
        .called first others called inside

theorem evaluateNode
    {expression : Expression}
    (stands : expression.rose.StandsAt machine.arena id) :
    Ends context (steps.evaluateNode id) machine (Runs (.evaluate expression) context state) := by
  cases expression with
  | constant token value =>
      have constant : steps.evaluateNode id machine = ended (.ok (.ofConstant value)) machine :=
        evaluateNode_constant steps stands
      exact .still represents constant .constant
  | mention name =>
      exact .of_gives (.of_eq (evaluateNode_mention steps stands) (represents.valueOf name))
        .mention
  | group paren inner =>
      obtain ⟨below, atBelow, equation⟩ := evaluateNode_group steps stands
      exact .of_eq equation ((sound.evaluate represents atBelow).mono fun _ _ inner =>
        .group inner)
  | array bracket items =>
      obtain ⟨ids, atIds, equation⟩ := evaluateNode_array steps stands
      apply Ends.of_eq equation
      apply (sound.values represents atIds).bind fun _ _ all => .arrayFails all
      intro elements between after all same before
      exact .of_gives (same.newArray elements.toArray) (.array all)
  | unary operator operand =>
      obtain ⟨below, atBelow, equation⟩ := evaluateNode_unary steps stands
      apply Ends.of_eq equation
      apply (sound.evaluate represents atBelow).bind fun _ _ operand => .unary operand
      intro value between after operand same before
      exact .still same (ended_unaryValue operator value) (.unary operand)
  | binary operator left right =>
      obtain ⟨one, other, atOne, atOther, equation⟩ := evaluateNode_binary steps stands
      apply Ends.of_eq equation
      apply (sound.evaluate represents atOne).bind fun _ _ first => .binaryFails first
      intro value _ _ first same before
      apply (sound.evaluate same (atOther.mono before)).bind fun _ _ second => .binary first second
      intro result later ready second last onward
      exact .still last (ended_binaryValue last operator value result) (.binary first second)
  | logical operator left right =>
      obtain ⟨one, other, atOne, atOther, equation⟩ := evaluateNode_logical steps stands
      apply Ends.of_eq equation
      apply (sound.evaluate represents atOne).bind fun _ _ first => .logicalFails first
      intro value _ _ first same before
      split
      next decided => exact .still same rfl (.decided first decided)
      next undecided =>
        exact (sound.evaluate same (atOther.mono before)).mono fun _ _ second =>
          .undecided first (Bool.eq_false_iff.mpr undecided) second
  | assignment name inner =>
      obtain ⟨below, atBelow, equation⟩ := evaluateNode_assignment steps stands
      apply Ends.of_eq equation
      apply (sound.evaluate represents atBelow).bind fun _ _ inner => .assignmentFails inner
      intro value between _ inner same _
      cases assigned : between.assign context.scope name value with
      | ok later =>
          exact .of_gives ((same.assign assigned).bind fun _ changed _ => .pure changed value)
            (.assigned inner assigned)
      | error fault =>
          exact .of_gives (same.assign_error assigned).bind_error (.unassigned inner assigned)
  | call paren function arguments => exact callNode sound represents stands
  | index bracket target position =>
      obtain ⟨one, other, atOne, atOther, equation⟩ := evaluateNode_index steps stands
      apply Ends.of_eq equation
      apply (sound.evaluate represents atOne).bind fun _ _ first => .indexFails first
      intro value _ _ first same before
      apply (sound.evaluate same (atOther.mono before)).bind fun _ _ second => .index first second
      intro result later ready second last onward
      exact .still last (ended_elementAt last bracket value result) (.index first second)

/-! ## Statements -/

theorem executeAll
    {statements : List Statement}
    {ids : List (Option Tree.NodeId)}
    (stand : AllStandAt machine.arena (Statement.roses statements) ids) :
    Ends context (steps.executeAll ids) machine (Runs (.executeAll statements) context state) := by
  induction statements generalizing state machine ids with
  | nil =>
      rw [Statement.roses_nil, allStandAt_nil] at stand
      subst stand
      exact .still represents rfl .finished
  | cons statement others inductionHypothesis =>
      rw [Statement.roses_cons] at stand
      obtain ⟨id, rest, rfl, atId, atRest⟩ := (allStandAt_cons ..).mp stand
      apply (sound.execute represents atId).bind fun _ _ first => .statementFails first
      intro flow between after first same before
      cases flow with
      | returning value => exact .still same rfl (.left first)
      | normal =>
          exact (inductionHypothesis same (atRest.mono before)).mono fun _ _ rest =>
            .further first rest

/-- Statements are executed in a fresh scope. -/
theorem executeInside
    {outer : Scope}
    {bindings : List (String × Value)}
    {body : List Statement}
    {ids : List (Option Tree.NodeId)}
    (stand : AllStandAt machine.arena (Statement.roses body) ids) :
    Ends context (executeInside steps outer bindings ids) machine
      (Runs (.executeAll body) (context.within (state.inside outer)) (state.enter bindings)) := by
  obtain ⟨after, ends, entered, before⟩ := represents.newScope outer bindings
  have inside := sound.executeAll (entered.within (state.inside outer)) (stand.mono before)
  exact (inside.inScope entered.context).onward (Run.bind_of_ok ends) before

theorem executeLoop
    {condition : Expression}
    {body : Statement}
    {node : Tree.Node}
    (isLoop : IsLoop machine.arena condition body node)
    (rounds : Nat) :
    Ends context (steps.executeLoop node rounds) machine
      (Runs (.repeating condition body) context state) := by
  -- The rules for loops do not count rounds: each round is one rule above the others.
  induction rounds generalizing state machine with
  | zero => exact .exhausted represents rfl
  | succ rounds inductionHypothesis =>
      apply (sound.evaluate represents isLoop.condition).bind fun _ _ first => .conditionFails first
      intro value between after first same before
      split
      next truthy =>
        apply (sound.execute same (isLoop.body.mono before)).bind fun _ _ second =>
          .bodyFails first truthy second
        intro flow around last second onward after
        cases flow with
        | returning result => exact .still onward rfl (.leftLoop first truthy second)
        | normal =>
            exact (inductionHypothesis onward
              (isLoop.mono (Tree.Arena.le_trans before after))).mono fun _ _ rest =>
                .again first truthy second rest
      next falsy => exact .still same rfl (.ceased first (Bool.eq_false_iff.mpr falsy))

theorem declaration
    {name : Token}
    {initializer : Option Expression}
    (stands : (Statement.declaration name initializer).rose.StandsAt machine.arena id) :
    Ends context (steps.executeNode id) machine
      (Runs (.execute (.declaration name initializer)) context state) := by
  obtain ⟨below, atBelow, equation⟩ := executeNode_declaration steps stands
  apply Ends.of_eq equation
  cases initializer with
  | none =>
      obtain rfl := (standsAt_absent _).mp atBelow
      apply (sound.nothing represents).bind fun _ _ absent => nomatch absent.1
      intro value between after absent same _
      obtain ⟨rfl, rfl⟩ := And.intro (Except.ok.inj absent.1) absent.2
      exact .of_gives ((same.define name.lexeme .null).bind fun _ defined _ =>
        .pure defined Flow.normal) .declared
  | some initializer =>
      apply (sound.evaluate represents atBelow).bind fun _ _ inner => .initializerFails inner
      intro value between after inner same _
      exact .of_gives ((same.define name.lexeme value).bind fun _ defined _ =>
        .pure defined Flow.normal) (.initialized inner)

theorem echo
    {keyword : Token}
    {expression : Expression}
    (stands : (Statement.echo keyword expression).rose.StandsAt machine.arena id) :
    Ends context (steps.executeNode id) machine
      (Runs (.execute (.echo keyword expression)) context state) := by
  obtain ⟨below, atBelow, equation⟩ := executeNode_echo steps stands
  apply Ends.of_eq equation
  apply (sound.evaluate represents atBelow).bind fun _ _ inner => .echoFails inner
  intro value between after inner same _
  cases written : between.write (between.text value ++ "\n") keyword with
  | ok later =>
      refine .of_gives ((same.textOf value).bind fun _ sameStill _ => ?_) (.echoed inner written)
      exact (sameStill.write written).bind fun _ changed _ => .pure changed Flow.normal
  | error fault =>
      refine .of_gives ((same.textOf value).bind fun _ sameStill _ => ?_) (.unwritten inner written)
      exact (sameStill.write_error written).bind_error

theorem giveBack
    {keyword : Token}
    {given : Option Expression}
    (stands : (Statement.giveBack keyword given).rose.StandsAt machine.arena id) :
    Ends context (steps.executeNode id) machine
      (Runs (.execute (.giveBack keyword given)) context state) := by
  obtain ⟨below, atBelow, equation⟩ := executeNode_giveBack steps stands
  apply Ends.of_eq equation
  rw [represents.depth_eq, represents.base_eq]
  split
  next outside =>
    exact .of_gives (.fail represents .returnOutsideFunction keyword) (.outside outside)
  next inside =>
    cases given with
    | none =>
        obtain rfl := (standsAt_absent _).mp atBelow
        apply (sound.nothing represents).bind fun _ _ absent => nomatch absent.1
        intro value between after absent same _
        obtain ⟨rfl, rfl⟩ := And.intro (Except.ok.inj absent.1) absent.2
        exact .still same rfl (.gaveNothing inside)
    | some value =>
        apply (sound.evaluate represents atBelow).bind fun _ _ inner => .gaveBack inside inner
        intro result between after inner same before
        exact .still same rfl (.gaveBack inside inner)

theorem executeNode
    {statement : Statement}
    (stands : statement.rose.StandsAt machine.arena id) :
    Ends context (steps.executeNode id) machine (Runs (.execute statement) context state) := by
  cases statement with
  | declaration name initializer => exact declaration sound represents stands
  | echo keyword expression => exact echo sound represents stands
  | discard semicolon expression =>
      obtain ⟨below, atBelow, equation⟩ := executeNode_discard steps stands
      apply Ends.of_eq equation
      apply (sound.evaluate represents atBelow).bind fun _ _ inner => .discarded inner
      intro value between after inner same before
      exact .still same rfl (.discarded inner)
  | block brace body =>
      obtain ⟨ids, atIds, equation⟩ := executeNode_block steps stands
      rw [represents.scope_eq] at equation
      exact .of_eq equation ((executeInside sound represents atIds).mono fun _ _ inside =>
        .block inside)
  | branch keyword condition consequence =>
      obtain ⟨one, other, atOne, atOther, equation⟩ := executeNode_branch steps stands
      apply Ends.of_eq equation
      apply (sound.evaluate represents atOne).bind fun _ _ first => .branchFails first
      intro value between _ first same before
      split
      next truthy =>
        exact (sound.execute same (atOther.mono before)).mono fun _ _ second =>
          .taken first truthy second
      next falsy =>
        apply (sound.normal same).mono
        intro outcome later absent
        obtain ⟨rfl, rfl⟩ := absent
        exact .skipped first (Bool.eq_false_iff.mpr falsy)
  | choice keyword condition consequence alternative =>
      obtain ⟨one, other, third, atOne, atOther, atThird, equation⟩ :=
        executeNode_choice steps stands
      apply Ends.of_eq equation
      apply (sound.evaluate represents atOne).bind fun _ _ first => .choiceFails first
      intro value between _ first same before
      split
      next truthy =>
        refine (sound.execute same (atOther.mono before)).mono fun _ _ second => .chosen first ?_
        rw [if_pos truthy]
        exact second
      next falsy =>
        refine (sound.execute same (atThird.mono before)).mono fun _ _ second => .chosen first ?_
        rw [if_neg falsy]
        exact second
  | loop keyword condition body =>
      obtain ⟨node, isLoop, equation⟩ := executeNode_loop steps stands
      exact .of_eq equation ((executeLoop sound represents isLoop steps.rounds).mono
        fun _ _ repeating => .loop repeating)
  | function name parameters brace body =>
      obtain ⟨below, atBelow, equation⟩ := executeNode_function steps stands
      rw [represents.scope_eq] at equation
      have denotes :=
        Denotes.function name.lexeme (parameters.map Token.lexeme) context.scope atBelow
      refine .of_gives (.of_eq equation ((represents.newCallable denotes).bind
        fun after added _ => ?_)) .function
      exact (added.define name.lexeme _).bind fun _ defined _ => .pure defined Flow.normal
  | giveBack keyword given => exact giveBack sound represents stands

/-! ## Calls -/

theorem interpretWith
    {statements : List Statement}
    {ending : Token}
    {root : Tree.NodeId}
    (stands : (Tree.programRose ending statements).StandsAt machine.arena (some root)) :
    Ends context (Run.interpretWith steps root) machine
      (Runs (.program statements) context state) := by
  let top : Machine := { machine with scope := Scope.global, base := machine.depth }
  have stands : (Tree.programRose ending statements).StandsAt top.arena (some root) := stands
  have inside := (sound.program represents.atTop stands).atTopLevel represents.context
  apply inside.bind fun _ _ inside => .programFails inside
  intro flow between after inside same before
  exact .of_gives same.flush (.program inside)

theorem runLocated
    {before : State}
    {given : List Value}
    {outcome : Except String (String × String)}
    (located : located before context.libraries (given.headD .null) = (outcome, state)) :
    Ends context (runLocated steps outcome) machine
      (Runs (.answer .runFile given) context before) := by
  cases outcome with
  | error reason => exact .still represents rfl (.missing located)
  | ok found =>
      obtain ⟨path, source⟩ := found
      cases accepted : accepts source with
      | false =>
          obtain ⟨root, after, read, same, onward⟩ := read_faults represents source
          exact .of_gives ⟨after, runLocated_of_rejected read accepted, same, onward⟩
            (.rejected located accepted)
      | true =>
          obtain ⟨-, statements, derivation, nearest⟩ := derives_of_accepts accepted
          obtain ⟨root, after, read, same, onward, stands⟩ :=
            read_of_accepts represents accepted derivation nearest
          refine Ends.onward ?_ (runLocated_of_accepts read) onward
          exact (interpretWith sound same stands).bind_attempt fun _ _ _ inside last _ =>
            .still last rfl (.included located accepted derivation nearest inside)

theorem runFile (given : List Value) :
    Ends context (Builtin.runFile steps (given.headD .null)) machine
      (Runs (.answer .runFile given) context state) := by
  obtain ⟨after, ends, same, before⟩ := gives_locate represents (given.headD .null)
  rw [runFile_eq]
  exact (runLocated sound same (Prod.eta _).symm).onward (Run.bind_of_ok ends) before

theorem apply (given : List Value) :
    Ends context (Builtin.apply steps (given.headD .null) (given.tail.headD .null)) machine
      (Runs (.answer .apply given) context state) := by
  cases applied : applied? state (given.headD .null) (given.tail.headD .null) with
  | none => exact .of_gives (gives_unapplied represents steps applied) (.unapplied applied)
  | some found =>
      obtain ⟨definition, arguments⟩ := found
      obtain ⟨callable, denotes, equation⟩ := apply_of_applied represents steps applied
      apply Ends.of_eq equation
      exact (sound.call arguments represents denotes).bind_attempt fun _ _ _ inside same _ =>
        .still same rfl (.applied applied inside)

theorem answer (action : Action) (given : List Value) :
    Ends context (Builtin.answer steps action given) machine
      (Runs (.answer action given) context state) := by
  cases found : answer? state action (given.headD .null) (given.tail.headD .null) with
  | some answered =>
      obtain ⟨answer, later⟩ := answered
      exact .of_gives (gives_answer? represents steps found) (.answered found)
  | none =>
      cases action with
      | runFile => exact runFile sound represents given
      | apply => exact apply sound represents given
      | _ => cases found

theorem callCallable
    {callable : Callable}
    {definition : Definition}
    (denotes : Denotes machine.arena callable definition)
    (given : List Value) :
    Ends context (steps.callCallable callable given) machine
      (Runs (.call definition given) context state) := by
  cases denotes with
  | builtin builtin =>
      apply (answer sound represents builtin.action given).bind
      · -- A built-in function that fails answers with a reason.
        intro fault later answers
        generalize builtin.action = action at answers
        cases answers
      · intro answer between after answers same before
        cases answer <;> exact .still same rfl (.applyBuiltin answers)
  | function name parameters closure stands =>
      obtain ⟨ids, atIds, equation⟩ := callFunction_eq steps stands given
      apply Ends.of_eq equation
      apply (executeInside sound represents atIds).bind fun _ _ inside => .applyFunction inside
      intro flow between after inside same before
      exact .still same rfl (.applyFunction inside)

end Sound

/-- Whatever is computed within a bound follows from the rules. -/
theorem sound_within (bound : Nat) : Sound (Run.within bound) := by
  induction bound with
  | zero =>
      -- Without a bound nothing is done, so nothing has to follow.
      constructor
      all_goals
        intros
        exact .exhausted ‹_› rfl
  | succ bound inductionHypothesis =>
      constructor
      case evaluate =>
        intro context state machine expression id represents stands
        exact .of_eq (evaluate_succ bound id machine)
          (inductionHypothesis.evaluateNode represents stands)
      case execute =>
        intro context state machine statement id represents stands
        exact .of_eq (execute_succ bound id machine)
          (inductionHypothesis.executeNode represents stands)
      case program =>
        intro context state machine statements ending id represents stands
        obtain ⟨ids, atIds, equation⟩ := executeNode_program (Run.within bound) stands
        exact .of_eq ((execute_succ bound id machine).trans equation)
          (inductionHypothesis.executeAll represents atIds)
      case call =>
        intro context state machine callable definition arguments represents denotes
        exact .of_eq (call_succ bound callable arguments machine)
          (inductionHypothesis.callCallable represents denotes arguments)
      case nothing =>
        intro context state machine represents
        exact .of_gives (gives_nothing represents (Nat.succ_pos bound)) ⟨rfl, rfl⟩
      case normal =>
        intro context state machine represents
        exact .of_gives (gives_normal represents (Nat.succ_pos bound)) ⟨rfl, rfl⟩

end Meaning
end Scripting
