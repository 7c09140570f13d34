import Scripting.Proofs.Meaning.Expressions

/-!
# The rules for statements and calls on machines

Within one bound more, a machine does for a statement, a call or a program what the
rules make of what it does for the parts.  A loop takes one round more.
-/

namespace Scripting
namespace Meaning

open Tree (Expression Statement)
open Tree.Rose (AllStandAt)

variable {context : Context} {state between around later : State} {fault : Fault} {value : Value}
  {bound rounds : Nat}

namespace Carries

/-! ## Statements -/

section Statements

variable {outcome : Except Fault Flow} {expression : Expression} {statement : Statement}
  {token : Token}

theorem of_executeNode
    (carries : ∀ ⦃machine : Machine⦄ ⦃id : Option Tree.NodeId⦄,
      Represents context state machine → statement.rose.StandsAt machine.arena id →
      Gives context ((Run.within bound).executeNode id) machine outcome later) :
    Carries (Run.within (bound + 1)) rounds (.execute statement) context state outcome later := by
  intro machine work represents performs
  cases performs with
  | execute stands => exact .of_eq (execute_succ bound _ machine) (carries represents stands)

/-- A statement fails if the expression fails with which it begins. -/
theorem execute_error
    (first : Carries (Run.within bound) bound (.evaluate expression) context state (.error fault)
      later)
    (begins : ∀ ⦃machine : Machine⦄ ⦃id : Option Tree.NodeId⦄,
      statement.rose.StandsAt machine.arena id →
      ∃ below next, expression.rose.StandsAt machine.arena below ∧
        (Run.within bound).executeNode id machine =
          ((Run.within bound).evaluate below >>= next) machine) :
    Carries (Run.within (bound + 1)) rounds (.execute statement) context state (.error fault)
      later := by
  apply of_executeNode
  intro machine id represents stands
  obtain ⟨below, next, atBelow, equation⟩ := begins stands
  exact .of_eq equation (first represents (.evaluate atBelow)).bind_error

theorem declared (positive : 0 < bound) :
    Carries (Run.within (bound + 1)) rounds (.execute (.declaration token none)) context state
      (.ok .normal) (state.define context.scope token.lexeme .null) := by
  apply of_executeNode
  intro machine id represents stands
  obtain ⟨below, atBelow, equation⟩ := executeNode_declaration _ stands
  obtain rfl := (Tree.Rose.standsAt_absent _).mp atBelow
  apply Gives.of_eq equation
  apply (gives_nothing represents positive).bind
  intro after same _
  exact (same.define token.lexeme .null).bind fun last defined _ => .pure defined Flow.normal

theorem initialized
    (initializer : Carries (Run.within bound) bound (.evaluate expression) context state (.ok value)
      later) :
    Carries (Run.within (bound + 1)) rounds (.execute (.declaration token (some expression)))
      context state (.ok .normal) (later.define context.scope token.lexeme value) := by
  apply of_executeNode
  intro machine id represents stands
  obtain ⟨below, atBelow, equation⟩ := executeNode_declaration _ stands
  apply Gives.of_eq equation
  apply (initializer represents (.evaluate atBelow)).bind
  intro after same _
  exact (same.define token.lexeme value).bind fun last defined _ => .pure defined Flow.normal

theorem initializerFails
    (initializer : Carries (Run.within bound) bound (.evaluate expression) context state
      (.error fault) later) :
    Carries (Run.within (bound + 1)) rounds (.execute (.declaration token (some expression)))
      context state (.error fault) later := by
  apply execute_error initializer
  intro machine id stands
  obtain ⟨below, atBelow, equation⟩ := executeNode_declaration _ stands
  exact ⟨below, _, atBelow, equation⟩

theorem echoed
    (inner : Carries (Run.within bound) bound (.evaluate expression) context state (.ok value)
      between)
    (written : between.write (between.text value ++ "\n") token = .ok later) :
    Carries (Run.within (bound + 1)) rounds (.execute (.echo token expression)) context state
      (.ok .normal) later := by
  apply of_executeNode
  intro machine id represents stands
  obtain ⟨below, atBelow, equation⟩ := executeNode_echo _ stands
  apply Gives.of_eq equation
  apply (inner represents (.evaluate atBelow)).bind
  intro after same _
  apply (same.textOf value).bind
  intro shown sameStill _
  exact (sameStill.write written).bind fun last changed _ => .pure changed Flow.normal

theorem unwritten
    (inner :
      Carries (Run.within bound) bound (.evaluate expression) context state (.ok value) later)
    (unwritten : later.write (later.text value ++ "\n") token = .error fault) :
    Carries (Run.within (bound + 1)) rounds (.execute (.echo token expression)) context state
      (.error fault) later := by
  apply of_executeNode
  intro machine id represents stands
  obtain ⟨below, atBelow, equation⟩ := executeNode_echo _ stands
  apply Gives.of_eq equation
  apply (inner represents (.evaluate atBelow)).bind
  intro after same _
  apply (same.textOf value).bind
  intro shown sameStill _
  exact (sameStill.write_error unwritten).bind_error

theorem echoFails
    (inner : Carries (Run.within bound) bound (.evaluate expression) context state (.error fault)
      later) :
    Carries (Run.within (bound + 1)) rounds (.execute (.echo token expression)) context state
      (.error fault) later := by
  apply execute_error inner
  intro machine id stands
  obtain ⟨below, atBelow, equation⟩ := executeNode_echo _ stands
  exact ⟨below, _, atBelow, equation⟩

theorem discarded
    {result : Except Fault Value}
    (inner : Carries (Run.within bound) bound (.evaluate expression) context state result later) :
    Carries (Run.within (bound + 1)) rounds (.execute (.discard token expression)) context state
      (result.map fun _ => .normal) later := by
  apply of_executeNode
  intro machine id represents stands
  obtain ⟨below, atBelow, equation⟩ := executeNode_discard _ stands
  exact .of_eq equation ((inner represents (.evaluate atBelow)).map fun _ => Flow.normal)

/-- Statements are executed in a fresh scope. -/
theorem gives_executeInside
    {outer : Scope}
    {bindings : List (String × Value)}
    {body : List Statement}
    {ids : List (Option Tree.NodeId)}
    {machine : Machine}
    (inside : Carries (Run.within bound) bound (.executeAll body)
      (context.within (state.inside outer)) (state.enter bindings) outcome later)
    (represents : Represents context state machine)
    (stand : AllStandAt machine.arena (Statement.roses body) ids) :
    Gives context (executeInside (Run.within bound) outer bindings ids) machine outcome later := by
  apply (represents.newScope outer bindings).bind
  intro after entered before
  exact (inside (entered.within _) (.executeAll (stand.mono before))).inScope entered.context

theorem block
    {body : List Statement}
    (inside : Carries (Run.within bound) bound (.executeAll body)
      (context.within (state.inside context.scope)) (state.enter []) outcome later) :
    Carries (Run.within (bound + 1)) rounds (.execute (.block token body)) context state outcome
      later := by
  apply of_executeNode
  intro machine id represents stands
  obtain ⟨ids, atIds, equation⟩ := executeNode_block _ stands
  rw [represents.scope_eq] at equation
  exact .of_eq equation (gives_executeInside inside represents atIds)

section Branches

variable {condition : Expression} {consequence alternative : Statement}

theorem taken
    (first : Carries (Run.within bound) bound (.evaluate condition) context state (.ok value)
      between)
    (truthy : value.isTruthy = true)
    (second : Carries (Run.within bound) bound (.execute consequence) context between outcome
      later) :
    Carries (Run.within (bound + 1)) rounds (.execute (.branch token condition consequence)) context
      state outcome later := by
  apply of_executeNode
  intro machine id represents stands
  obtain ⟨one, other, atOne, atOther, equation⟩ := executeNode_branch _ stands
  apply Gives.of_eq equation
  apply (first represents (.evaluate atOne)).bind
  intro after same before
  rw [if_pos truthy]
  exact second same (.execute (atOther.mono before))

theorem skipped
    (positive : 0 < bound)
    (first : Carries (Run.within bound) bound (.evaluate condition) context state (.ok value) later)
    (falsy : value.isTruthy = false) :
    Carries (Run.within (bound + 1)) rounds (.execute (.branch token condition consequence)) context
      state (.ok .normal) later := by
  apply of_executeNode
  intro machine id represents stands
  obtain ⟨one, other, atOne, -, equation⟩ := executeNode_branch _ stands
  apply Gives.of_eq equation
  apply (first represents (.evaluate atOne)).bind
  intro after same _
  rw [if_neg (by simp [falsy])]
  exact gives_normal same positive

theorem branchFails
    (first : Carries (Run.within bound) bound (.evaluate condition) context state (.error fault)
      later) :
    Carries (Run.within (bound + 1)) rounds (.execute (.branch token condition consequence)) context
      state (.error fault) later := by
  apply execute_error first
  intro machine id stands
  obtain ⟨one, other, atOne, -, equation⟩ := executeNode_branch _ stands
  exact ⟨one, _, atOne, equation⟩

theorem chosen
    (first : Carries (Run.within bound) bound (.evaluate condition) context state (.ok value)
      between)
    (second : Carries (Run.within bound) bound
      (.execute (if value.isTruthy then consequence else alternative)) context between outcome
      later) :
    Carries (Run.within (bound + 1)) rounds
      (.execute (.choice token condition consequence alternative)) context state outcome later := by
  apply of_executeNode
  intro machine id represents stands
  obtain ⟨one, other, third, atOne, atOther, atThird, equation⟩ := executeNode_choice _ stands
  apply Gives.of_eq equation
  apply (first represents (.evaluate atOne)).bind
  intro after same before
  split
  next truthy =>
    rw [if_pos truthy] at second
    exact second same (.execute (atOther.mono before))
  next falsy =>
    rw [if_neg falsy] at second
    exact second same (.execute (atThird.mono before))

theorem choiceFails
    (first : Carries (Run.within bound) bound (.evaluate condition) context state (.error fault)
      later) :
    Carries (Run.within (bound + 1)) rounds
      (.execute (.choice token condition consequence alternative)) context state (.error fault)
      later := by
  apply execute_error first
  intro machine id stands
  obtain ⟨one, other, third, atOne, -, -, equation⟩ := executeNode_choice _ stands
  exact ⟨one, _, atOne, equation⟩

end Branches

theorem loop
    {condition : Expression}
    {body : Statement}
    (repeating : Carries (Run.within bound) bound (.repeating condition body) context state outcome
      later) :
    Carries (Run.within (bound + 1)) rounds (.execute (.loop token condition body)) context state
      outcome later := by
  apply of_executeNode
  intro machine id represents stands
  obtain ⟨node, isLoop, equation⟩ := executeNode_loop _ stands
  exact .of_eq equation (repeating represents (.repeating isLoop))

theorem function
    {brace : Token}
    {parameters : List Token}
    {body : List Statement} :
    Carries (Run.within (bound + 1)) rounds (.execute (.function token parameters brace body))
      context state (.ok .normal)
      ((state.addFunction (.function token.lexeme (parameters.map Token.lexeme) body
          context.scope)).define context.scope token.lexeme (.callable state.functions.size)) := by
  apply of_executeNode
  intro machine id represents stands
  obtain ⟨below, atBelow, equation⟩ := executeNode_function _ stands
  rw [represents.scope_eq] at equation
  have denotes := Denotes.function token.lexeme (parameters.map Token.lexeme) context.scope atBelow
  apply Gives.of_eq equation
  apply (represents.newCallable denotes).bind
  intro after added _
  exact (added.define token.lexeme _).bind fun last defined _ => .pure defined Flow.normal

section Returns

variable {result : Except Fault Value}

/-- Inside a function, what a `return` gives back is evaluated. -/
theorem gives_giveBack
    {machine : Machine}
    {work : Run Value}
    (represents : Represents context state machine)
    (inside : context.depth ≠ context.base)
    (gives : Gives context work machine result later) :
    Gives context
      (if machine.depth = machine.base then Run.fail .returnOutsideFunction token
        else work >>= fun value => pure (.returning value) : Run Flow)
      machine (result.map .returning) later := by
  rw [represents.depth_eq, represents.base_eq, if_neg inside]
  exact gives.map Flow.returning

theorem outside
    {given : Option Expression}
    (outside : context.depth = context.base) :
    Carries (Run.within (bound + 1)) rounds (.execute (.giveBack token given)) context state
      (.error (Fault.atToken .returnOutsideFunction token)) state := by
  apply of_executeNode
  intro machine id represents stands
  obtain ⟨below, -, equation⟩ := executeNode_giveBack _ stands
  rw [represents.depth_eq, represents.base_eq, if_pos outside] at equation
  exact .of_eq equation (.fail represents .returnOutsideFunction token)

theorem gaveNothing
    (positive : 0 < bound)
    (inside : context.depth ≠ context.base) :
    Carries (Run.within (bound + 1)) rounds (.execute (.giveBack token none)) context state
      (.ok (.returning .null)) state := by
  apply of_executeNode
  intro machine id represents stands
  obtain ⟨below, atBelow, equation⟩ := executeNode_giveBack _ stands
  obtain rfl := (Tree.Rose.standsAt_absent _).mp atBelow
  exact .of_eq equation (gives_giveBack represents inside (gives_nothing represents positive))

theorem gaveBack
    (inside : context.depth ≠ context.base)
    (inner : Carries (Run.within bound) bound (.evaluate expression) context state result later) :
    Carries (Run.within (bound + 1)) rounds (.execute (.giveBack token (some expression))) context
      state (result.map .returning) later := by
  apply of_executeNode
  intro machine id represents stands
  obtain ⟨below, atBelow, equation⟩ := executeNode_giveBack _ stands
  exact .of_eq equation (gives_giveBack represents inside (inner represents (.evaluate atBelow)))

end Returns

end Statements

/-! ## Statements in turn -/

section Sequences

variable {steps : Steps} {outcome : Except Fault Flow} {statement : Statement}
  {others : List Statement}

theorem finished :
    Carries steps rounds (.executeAll []) context state (.ok .normal) state := by
  intro machine work represents performs
  cases performs with
  | executeAll stand =>
      obtain rfl := (Tree.Rose.allStandAt_nil _).mp stand
      exact .pure represents _

theorem of_executeAll_cons
    (carries : ∀ ⦃machine : Machine⦄ ⦃id : Option Tree.NodeId⦄ ⦃ids : List (Option Tree.NodeId)⦄,
      Represents context state machine → statement.rose.StandsAt machine.arena id →
      AllStandAt machine.arena (Statement.roses others) ids →
      Gives context (steps.executeAll (id :: ids)) machine outcome later) :
    Carries steps rounds (.executeAll (statement :: others)) context state outcome later := by
  intro machine work represents performs
  cases performs with
  | executeAll stand =>
      rw [Statement.roses_cons] at stand
      obtain ⟨id, ids, rfl, atId, atIds⟩ := (Tree.Rose.allStandAt_cons ..).mp stand
      exact carries represents atId atIds

theorem further
    (first : Carries steps rounds (.execute statement) context state (.ok .normal) between)
    (rest : Carries steps rounds (.executeAll others) context between outcome later) :
    Carries steps rounds (.executeAll (statement :: others)) context state outcome later := by
  apply of_executeAll_cons
  intro machine id ids represents atId atIds
  apply (first represents (.execute atId)).bind
  intro after same before
  exact rest same (.executeAll (atIds.mono before))

theorem left
    (first :
      Carries steps rounds (.execute statement) context state (.ok (.returning value)) later) :
    Carries steps rounds (.executeAll (statement :: others)) context state (.ok (.returning value))
      later := by
  apply of_executeAll_cons
  intro machine id ids represents atId atIds
  exact (first represents (.execute atId)).bind fun after same _ => .pure same _

theorem statementFails
    (first : Carries steps rounds (.execute statement) context state (.error fault) later) :
    Carries steps rounds (.executeAll (statement :: others)) context state (.error fault)
      later := by
  apply of_executeAll_cons
  intro machine id ids represents atId atIds
  exact (first represents (.execute atId)).bind_error

end Sequences

/-! ## Loops -/

section Loops

variable {steps : Steps} {outcome : Except Fault Flow} {condition : Expression} {body : Statement}

theorem of_executeLoop
    (carries : ∀ ⦃machine : Machine⦄ ⦃node : Tree.Node⦄,
      Represents context state machine → IsLoop machine.arena condition body node →
      Gives context (steps.executeLoop node (rounds + 1)) machine outcome later) :
    Carries steps (rounds + 1) (.repeating condition body) context state outcome later := by
  intro machine work represents performs
  cases performs with
  | repeating isLoop => exact carries represents isLoop

theorem ceased
    (first : Carries steps rounds (.evaluate condition) context state (.ok value) later)
    (falsy : value.isTruthy = false) :
    Carries steps (rounds + 1) (.repeating condition body) context state (.ok .normal) later := by
  apply of_executeLoop
  intro machine node represents isLoop
  apply (first represents (.evaluate isLoop.condition)).bind
  intro after same _
  rw [if_neg (by simp [falsy])]
  exact .pure same Flow.normal

theorem again
    (first : Carries steps rounds (.evaluate condition) context state (.ok value) between)
    (truthy : value.isTruthy = true)
    (second : Carries steps rounds (.execute body) context between (.ok .normal) around)
    (rest : Carries steps rounds (.repeating condition body) context around outcome later) :
    Carries steps (rounds + 1) (.repeating condition body) context state outcome later := by
  apply of_executeLoop
  intro machine node represents isLoop
  apply (first represents (.evaluate isLoop.condition)).bind
  intro after same before
  rw [if_pos truthy]
  apply (second same (.execute (isLoop.body.mono before))).bind
  intro last onward after
  exact rest onward (.repeating (isLoop.mono (Tree.Arena.le_trans before after)))

theorem leftLoop
    {result : Value}
    (first : Carries steps rounds (.evaluate condition) context state (.ok value) between)
    (truthy : value.isTruthy = true)
    (second : Carries steps rounds (.execute body) context between (.ok (.returning result))
      later) :
    Carries steps (rounds + 1) (.repeating condition body) context state (.ok (.returning result))
      later := by
  apply of_executeLoop
  intro machine node represents isLoop
  apply (first represents (.evaluate isLoop.condition)).bind
  intro after same before
  rw [if_pos truthy]
  exact (second same (.execute (isLoop.body.mono before))).bind fun last left _ => .pure left _

theorem bodyFails
    (first : Carries steps rounds (.evaluate condition) context state (.ok value) between)
    (truthy : value.isTruthy = true)
    (second : Carries steps rounds (.execute body) context between (.error fault) later) :
    Carries steps (rounds + 1) (.repeating condition body) context state (.error fault) later := by
  apply of_executeLoop
  intro machine node represents isLoop
  apply (first represents (.evaluate isLoop.condition)).bind
  intro after same before
  rw [if_pos truthy]
  exact (second same (.execute (isLoop.body.mono before))).bind_error

theorem conditionFails
    (first : Carries steps rounds (.evaluate condition) context state (.error fault) later) :
    Carries steps (rounds + 1) (.repeating condition body) context state (.error fault) later := by
  apply of_executeLoop
  intro machine node represents isLoop
  exact (first represents (.evaluate isLoop.condition)).bind_error

end Loops

/-! ## Functions -/

section Functions

variable {given : List Value}

theorem of_callCallable
    {definition : Definition}
    {outcome : Except Fault Value}
    (carries : ∀ ⦃machine : Machine⦄ ⦃callable : Callable⦄,
      Represents context state machine → Denotes machine.arena callable definition →
      Gives context ((Run.within bound).callCallable callable given) machine outcome later) :
    Carries (Run.within (bound + 1)) rounds (.call definition given) context state outcome
      later := by
  intro machine work represents performs
  cases performs with
  | call _ denotes => exact .of_eq (call_succ bound _ _ machine) (carries represents denotes)

theorem applyFunction
    {outcome : Except Fault Flow}
    {name : String}
    {parameters : List String}
    {body : List Statement}
    {closure : Scope}
    (inside : Carries (Run.within bound) bound (.executeAll body)
      (context.within (state.inside closure)) (state.enter (parameters.zip given)) outcome later) :
    Carries (Run.within (bound + 1)) rounds (.call (.function name parameters body closure) given)
      context state (outcome.map resultOf) later := by
  apply of_callCallable
  intro machine callable represents denotes
  cases denotes with
  | function _ _ _ stands =>
      obtain ⟨ids, atIds, equation⟩ := callFunction_eq (Run.within bound) stands given
      exact .of_eq equation ((gives_executeInside inside represents atIds).map resultOf)

theorem applyBuiltin
    {answer : Builtin.Answer}
    {builtin : Builtin}
    (answers : Carries (Run.within bound) bound (.answer builtin.action given) context state
      (.ok answer) later) :
    Carries (Run.within (bound + 1)) rounds (.call (.builtin builtin) given) context state
      (outcomeOf builtin answer) later := by
  apply of_callCallable
  intro machine callable represents denotes
  cases denotes with
  | builtin _ =>
      apply (answers represents (.answer builtin.action given)).bind
      intro after same _
      cases answer with
      | ok value => exact .pure same value
      | error reason => exact .still same rfl

/-! ## Answers -/

variable {steps : Steps} {found source : String}

theorem answered
    {answer : Builtin.Answer}
    {action : Action}
    (answered : answer? state action (given.headD .null) (given.tail.headD .null) =
      some (answer, later)) :
    Carries steps rounds (.answer action given) context state (.ok answer) later := by
  intro machine work represents performs
  cases performs with
  | answer => exact gives_answer? represents steps answered

/-- A program is included in so far as it is found. -/
theorem of_runLocated
    {outcome : Except String (String × String)}
    {answer : Builtin.Answer}
    (located : located state context.libraries (given.headD .null) = (outcome, between))
    (carries : ∀ ⦃machine : Machine⦄, Represents context between machine →
      Gives context (runLocated steps outcome) machine (.ok answer) later) :
    Carries steps rounds (.answer .runFile given) context state (.ok answer) later := by
  intro machine work represents performs
  cases performs with
  | answer =>
      have located := gives_locate represents (given.headD .null)
      change Gives context (Builtin.runFile steps (given.headD .null)) machine _ _
      rw [runFile_eq]
      simp only [*] at located
      exact located.bind fun after same _ => carries same

theorem missing
    {reason : String}
    (located : located state context.libraries (given.headD .null) = (.error reason, later)) :
    Carries steps rounds (.answer .runFile given) context state (.ok (.error reason)) later :=
  of_runLocated located fun _ represents => .pure represents _

theorem rejected
    (located : located state context.libraries (given.headD .null) = (.ok (found, source), later))
    (rejected : accepts source = false) :
    Carries steps rounds (.answer .runFile given) context state
      (.ok (faulty found (faultsOf source))) later := by
  apply of_runLocated located
  intro machine represents
  obtain ⟨root, after, read, same, before⟩ := read_faults represents source
  exact ⟨after, runLocated_of_rejected read rejected, same, before⟩

theorem included
    {outcome : Except Fault Unit}
    {statements : List Statement}
    (located : located state context.libraries (given.headD .null) = (.ok (found, source), between))
    (accepted : accepts source = true)
    (derivation : Statement.Derives .declarations (tokensOf source).body [] statements)
    (nearest : Statement.AllElseNearest statements)
    (inside : Carries steps rounds (.program statements) context between outcome later) :
    Carries steps rounds (.answer .runFile given) context state
      (.ok (included found source outcome)) later := by
  apply of_runLocated located
  intro machine represents
  obtain ⟨root, after, read, same, before, stands⟩ :=
    read_of_accepts represents accepted derivation nearest
  obtain ⟨last, ends, sameLast, onward⟩ :=
    (inside same (.program stands)).attempt.map (Meaning.included found source)
  exact ⟨last, (runLocated_of_accepts read).trans ends, sameLast,
    Tree.Arena.le_trans before onward⟩

theorem unapplied
    (unapplied : applied? state (given.headD .null) (given.tail.headD .null) = none) :
    Carries steps rounds (.answer .apply given) context state
      (.ok (.error "expected a function and an array")) state := by
  intro machine work represents performs
  cases performs with
  | answer => exact gives_unapplied represents steps unapplied

theorem applied
    {outcome : Except Fault Value}
    {definition : Definition}
    {arguments : List Value}
    (applied : applied? state (given.headD .null) (given.tail.headD .null) =
      some (definition, arguments))
    (inside : Carries steps rounds (.call definition arguments) context state outcome later) :
    Carries steps rounds (.answer .apply given) context state (.ok (outcome.mapError Fault.text))
      later := by
  intro machine work represents performs
  cases performs with
  | answer =>
      obtain ⟨callable, denotes, equation⟩ := apply_of_applied represents steps applied
      exact .of_eq equation
        ((inside represents (.call arguments denotes)).attempt.map (Except.mapError Fault.text))

end Functions

/-! ## Programs -/

theorem gives_program
    {machine : Machine}
    {statements : List Statement}
    {ending : Token}
    {root : Tree.NodeId}
    {outcome : Except Fault Flow}
    (inside : Carries (Run.within bound) bound (.executeAll statements) context.atTop state outcome
      later)
    (represents : Represents context state machine)
    (stands : (Tree.programRose ending statements).StandsAt machine.arena (some root)) :
    Gives context (Run.atTopLevel ((Run.within (bound + 1)).execute (some root))) machine outcome
      later := by
  refine Gives.atTopLevel ?_ represents.context
  let top : Machine := { machine with scope := Scope.global, base := machine.depth }
  have stands : (Tree.programRose ending statements).StandsAt top.arena (some root) := stands
  obtain ⟨ids, atIds, equation⟩ := executeNode_program (Run.within bound) stands
  exact .of_eq ((execute_succ bound _ _).trans equation)
    (inside represents.atTop (.executeAll atIds))

theorem program
    {flow : Flow}
    {statements : List Statement}
    (inside : Carries (Run.within bound) bound (.executeAll statements) context.atTop state
      (.ok flow) later) :
    Carries (Run.within (bound + 1)) rounds (.program statements) context state later.flush
      later := by
  intro machine work represents performs
  cases performs with
  | program stands =>
      exact (gives_program inside represents stands).bind fun after same _ => same.flush

theorem programFails
    {statements : List Statement}
    (inside : Carries (Run.within bound) bound (.executeAll statements) context.atTop state
      (.error fault) later) :
    Carries (Run.within (bound + 1)) rounds (.program statements) context state (.error fault)
      later := by
  intro machine work represents performs
  cases performs with
  | program stands => exact (gives_program inside represents stands).bind_error

end Carries

end Meaning
end Scripting
