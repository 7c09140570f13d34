import Scripting.Proofs.Running.Links

/-!
# The rules of the evaluator as plans

Every errand that may be begun goes on according to a plan in which nothing is begun but
what it leads to: one rule for each kind of expression, of statement and of function.

Main statement: `Moment.Fits.plan`.
-/

namespace Scripting

open Tree (Arena Node)

variable {α : Type}

/-- A call looks at the number of arguments first, and then at the number of calls. -/
theorem Steps.callFound_some
    (steps : Steps)
    (paren : Token)
    (arguments : Array Value)
    (callable : Callable)
    (machine : Machine) :
    steps.callFound paren arguments (some callable) machine =
      if arguments.size ≠ callable.arity then
        Run.fail (.wrongArity callable.arity arguments.size) paren machine
      else if machine.limit ≤ machine.depth then Run.fail .callsTooDeep paren machine
      else Run.callEnd paren
        (steps.call callable arguments.toList { machine with depth := machine.depth + 1 }) := by
  simp only [Steps.callFound]
  split
  · rfl
  · change (if machine.limit ≤ machine.depth then _ else _ : Run Value) machine = _
    split
    · rfl
    · exact Run.inCall_eq _ _ _

/-- A call begins its errand, and when the errand has ended, one call less is active. -/
theorem Link.opens_ofCall
    (paren : Token)
    (machine : Machine)
    (callable : Callable)
    (arguments : List Value) :
    (ofCall paren machine callable arguments).Opens
      (fun steps => Run.callEnd paren
        (steps.call callable arguments { machine with depth := machine.depth + 1 }))
      fun value later _ => .ok value { later with depth := later.depth - 1 } := by
  intro steps
  change Run.callEnd paren
      (steps.call callable arguments { machine with depth := machine.depth + 1 }) =
    Link.resume (.ofCall paren machine callable arguments) _
      (steps.call callable arguments { machine with depth := machine.depth + 1 })
  cases steps.call callable arguments { machine with depth := machine.depth + 1 } with
  | ok value later => rfl
  | error interrupt later => cases interrupt <;> rfl

namespace Plan

variable
  {leads : Link → Prop}
  {manner : Manner}
  {machine : Machine}

/-! ## What is left to the steps -/

/-- An expression is left to the steps. It gives back nothing. -/
theorem evaluate
    {gives : Value → Value → Prop}
    {id : Option Tree.NodeId}
    (led : leads (.plain ⟨.evaluate id, machine⟩)) :
    Plan leads gives manner machine fun steps => steps.evaluate id machine :=
  (ask ⟨.evaluate id, machine⟩ led).gives_imp fun _ _ given => given.elim

/-- A statement is left to the steps. -/
theorem execute
    {id : Option Tree.NodeId}
    (led : leads (.plain ⟨.execute id, machine⟩)) :
    Plan leads (fun value flow => flow = .returning value) manner machine
      fun steps => steps.execute id machine :=
  ask ⟨.execute id, machine⟩ led

/-- What comes after an expression. -/
theorem evaluate_bind
    {gives : Value → α → Prop}
    {id : Option Tree.NodeId}
    {next : Steps → Value → Run α}
    (led : leads (.plain ⟨.evaluate id, machine⟩))
    (second : ∀ value later, machine.Becomes later →
      Plan leads gives manner later fun steps => next steps value later) :
    Plan leads gives manner machine fun steps => (steps.evaluate id >>= next steps) machine :=
  andThen (evaluate led) second

/-! ## Expressions -/

section Evaluation

variable {gives : Value → Value → Prop} {node : Node}

theorem evaluateAll
    {gives : Value → Array Value → Prop}
    {ids : List (Option Tree.NodeId)}
    (standard : machine.Standard)
    (led : ∀ id ∈ ids, ∀ later, machine.Becomes later → leads (.plain ⟨.evaluate id, later⟩))
    (values : Array Value) :
    Plan leads gives manner machine fun steps => steps.evaluateAll ids values machine := by
  induction ids generalizing machine values with
  | nil => exact .result standard values
  | cons id others inductionHypothesis =>
      rw [List.forall_mem_cons] at led
      refine evaluate_bind (led.1 machine (.refl standard)) fun value later becomes => ?_
      exact inductionHypothesis becomes.holds
        (fun other member last after => led.2 other member last (becomes.trans after)) _

section Calls

variable
  {arguments : Array Value}
  (isCall : node.kind = .call)
  (blames : manner.Blames node)

include isCall blames

/-- Calls a function, if the number of arguments is right and one call more may be
active. -/
theorem callFound
    {found : Option Callable}
    (standard : machine.Standard)
    (led : ∀ callable ∈ found, arguments.size = callable.arity → machine.depth < machine.limit →
      leads (.ofCall node.token machine callable arguments.toList)) :
    Plan leads gives manner machine fun steps =>
      steps.callFound node.token arguments found machine := by
  cases found with
  | none => exact .fault standard (blames _ (.target isCall))
  | some callable =>
      simp only [Steps.callFound_some]
      split
      · exact .fault standard (blames _ (.arity _ _ isCall))
      split
      · exact .fault standard (blames _ (.tooDeep isCall))
      next arity room =>
      exact .begins (led callable rfl (not_not.mp arity) (Nat.lt_of_not_le room))
        (Link.opens_ofCall node.token machine callable arguments.toList) (.inr (.of_eq rfl rfl))
        (fun later becomes => becomes.of_visit standard .call) (fun _ _ _ given => given.elim)
        fun value later becomes => .result (becomes.of_visit standard .call).holds value

theorem callValue
    {target : Value}
    (standard : machine.Standard)
    (led : ∀ callable, Regime.standard.calls machine callable →
      arguments.size = callable.arity → machine.depth < machine.limit →
      leads (.ofCall node.token machine callable arguments.toList)) :
    Plan leads gives manner machine fun steps =>
      steps.callValue node.token target arguments machine := by
  simp only [Steps.callValue_eq]
  cases target with
  | callable id =>
      exact callFound isCall blames standard fun callable stored =>
        led callable (Regime.standard.found standard stored)
  | _ => exact callFound isCall blames standard fun callable absent => nomatch absent

end Calls

section Node

variable
  (operands : ∀ position later, machine.Becomes later →
    leads (.plain ⟨.evaluate (node.child position), later⟩))

include operands

theorem logical (standard : machine.Standard) :
    Plan leads gives manner machine fun steps => steps.logical node machine := by
  refine evaluate_bind (operands 0 machine (.refl standard)) fun left later becomes => ?_
  have either (decided : Bool) : Plan leads gives manner later fun steps =>
      (if decided then pure left else steps.evaluate (node.child 1) : Run Value) later := by
    cases decided with
    | true => exact .result becomes.holds left
    | false => exact evaluate (operands 1 later becomes)
  exact either _

theorem callNode
    (isCall : node.kind = .call)
    (blames : manner.Blames node)
    (standard : machine.Standard)
    (led : ∀ later callable arguments, machine.Becomes later →
      Regime.standard.calls later callable → arguments.length = callable.arity →
      later.depth < later.limit → leads (.ofCall node.token later callable arguments)) :
    Plan leads gives manner machine fun steps => steps.callNode node machine := by
  refine evaluate_bind (operands 0 machine (.refl standard)) fun target later becomes => ?_
  refine andThen (evaluateAll becomes.holds (fun id member last after => ?_) #[])
    fun arguments last after => callValue isCall blames after.holds
      fun callable called arity room =>
      led last callable arguments.toList (becomes.trans after) called
        (by rwa [Array.length_toList]) room
  obtain ⟨position, rfl⟩ := Node.exists_child (List.mem_of_mem_tail member)
  exact operands position last (becomes.trans after)

/-- Two operands are evaluated before an operator is applied to them. -/
theorem operator
    {next : Value → Value → Run Value}
    (standard : machine.Standard)
    (obeys : ∀ (later : Machine) left right,
      Regime.standard.Obeys later (next left right) (next left right))
    (uncounted : ∀ left right, Uncounted (next left right))
    (tame : ∀ left right, Tame manner.fails (next left right)) :
    Plan leads gives manner machine fun steps =>
      (do
        let left ← steps.evaluate (node.child 0)
        let right ← steps.evaluate (node.child 1)
        next left right) machine := by
  refine evaluate_bind (operands 0 machine (.refl standard)) fun left later becomes => ?_
  refine evaluate_bind (operands 1 later becomes) fun right last after => ?_
  exact steady after.holds (obeys last left right) (uncounted left right) (tame left right)

end Node

end Evaluation

/-- The rules for expressions. -/
theorem evaluateNode
    {id : Option Tree.NodeId}
    (fits : (Moment.mk (.evaluate id) machine).Fits) :
    Plan (Moment.mk (.evaluate id) machine).Leads (Errand.evaluate id).Gives
      (Moment.mk (.evaluate id) machine).manner machine
      fun steps => steps.evaluateNode id machine := by
  obtain ⟨standard, fit⟩ := fits
  change machine.Standard at standard
  cases found : machine.arena.node? id with
  | none =>
      have absent : Run.node? id machine = .ok none machine := by rw [Run.node?, found]
      simp only [Steps.evaluateNode, Run.bind_of_ok absent]
      exact .result standard _
  | some node =>
      have isExpression : node.kind.isStatement = false :=
        Tree.NodeSort.isStatement_of_expression _ (fit.kind found)
      have operands : ∀ position later, machine.Becomes later →
          (Moment.mk (.evaluate id) machine).Leads
            (.plain ⟨.evaluate (node.child position), later⟩) := fun position later becomes =>
        .operand found becomes (Regime.standard.evaluates_mono becomes.grows.arena
          (Regime.standard.operand standard fit found isExpression position))
      have blames : (Moment.mk (.evaluate id) machine).manner.Blames node := Moment.blames found
      simp only [Steps.evaluateNode, Run.bind_of_ok (Run.node?_of_eq found)]
      cases kind : node.kind <;> rw [kind] at isExpression
      case constant => exact .result standard _
      case group => exact evaluate (operands 0 machine (.refl standard))
      case «variable» =>
        exact steady standard (.valueOf node.token) (.valueOf node.token)
          (.valueOf (blames _ (.unbound (.inl kind))))
      case assignment =>
        refine evaluate_bind (operands 0 machine (.refl standard)) fun value later becomes => ?_
        exact steady becomes.holds ((Regime.Obeys.assign _ value).bind fun _ => .pure value)
          ((Uncounted.assign _ value).bind fun _ => .pure value)
          ((Tame.assign (blames _ (.unbound (.inr kind))) value).bind fun _ => .pure value)
      case logical => exact logical operands standard
      case unary =>
        refine evaluate_bind (operands 0 machine (.refl standard)) fun value later becomes => ?_
        exact steady becomes.holds (.unaryValue _ value) (.unaryValue _ value)
          (.unaryValue (fun isMinus => blames _ (.operand kind isMinus)) value)
      case binary =>
        exact operator operands standard (fun _ left right => .binaryValue _ left right)
          (.binaryValue _) (.binaryValue (fun numeric => blames _ (.operands kind numeric))
            (fun isPlus => blames _ (.addends kind isPlus))
            fun isSlash => blames _ (.divisor kind isSlash))
      case call =>
        exact callNode operands kind blames standard
          fun later callable arguments becomes called arity room =>
            .call found kind becomes called arity room
      case array =>
        refine andThen (evaluateAll standard (fun id member later becomes => ?_) #[])
          fun items later becomes =>
            steady becomes.holds (.newArray items) (.newArray items) (.newArray items)
        obtain ⟨position, rfl⟩ := Node.exists_child member
        exact operands position later becomes
      case index =>
        exact operator operands standard (fun _ target position => .elementAt _ target position)
          (.elementAt _) (.elementAt (fun _ => blames _ (.notArray _ kind))
            (blames _ (.position kind)) fun _ _ => blames _ (.outside _ _ kind))
      case parameter => exact .result standard _
      all_goals cases isExpression

/-! ## Statements -/

/-- What a statement gives back. -/
abbrev returning (value : Value) (flow : Flow) : Prop :=
  flow = .returning value

/-- A statement that gives back a value ends those in whose midst it stands. -/
theorem execute_bind
    {id : Option Tree.NodeId}
    {next : Steps → Flow → Run Flow}
    (led : leads (.plain ⟨.execute id, machine⟩))
    (passes : ∀ value steps, next steps (.returning value) = pure (.returning value))
    (second : ∀ later, machine.Becomes later →
      Plan leads returning manner later fun steps => next steps .normal later) :
    Plan leads returning manner machine fun steps => (steps.execute id >>= next steps) machine := by
  refine bind (execute led) (fun value flow given => ⟨flow, given, fun steps => ?_⟩)
    fun flow later becomes => ?_
  · rw [given]
    exact passes value steps
  · cases flow with
    | normal => exact second later becomes
    | returning value =>
        simp only [passes]
        exact .result becomes.holds _

theorem executeAll
    {ids : List (Option Tree.NodeId)}
    (standard : machine.Standard)
    (led : ∀ id ∈ ids, ∀ later, machine.Becomes later → leads (.plain ⟨.execute id, later⟩)) :
    Plan leads returning manner machine fun steps => steps.executeAll ids machine := by
  induction ids generalizing machine with
  | nil => exact .result standard _
  | cons id others inductionHypothesis =>
      rw [List.forall_mem_cons] at led
      refine execute_bind (led.1 machine (.refl standard)) (fun _ _ => rfl) fun later becomes => ?_
      exact inductionHypothesis becomes.holds fun other member last after =>
        led.2 other member last (becomes.trans after)

/-- The statements of a block are executed in a new scope. -/
theorem executeBlock
    {node : Node}
    {outer : Scope}
    {bindings : List (String × Value)}
    (standard : machine.Standard)
    (visits : machine.Visits Regime.standard.calls (machine.opening outer bindings)
      fun later => { later with scope := machine.scope })
    (led : ∀ position later, (machine.opening outer bindings).Becomes later →
      leads ((Link.plain ⟨.execute (node.child position), later⟩).inScope machine.scope)) :
    Plan leads returning manner machine fun steps =>
      steps.executeBlock outer bindings node machine := by
  simp only [Steps.executeBlock_eq]
  have opened := Regime.standard.enter standard visits
  have entered : machine.Becomes { machine.opening outer bindings with scope := machine.scope } :=
    Machine.Becomes.of_visit (.refl opened) standard visits
  have inside : Plan
      (fun link => ∃ position later, (machine.opening outer bindings).Becomes later ∧
        link = .plain ⟨.execute (node.child position), later⟩)
      returning manner (machine.opening outer bindings)
      fun steps => steps.executeAll node.children (machine.opening outer bindings) := by
    refine executeAll opened fun id member later becomes => ?_
    obtain ⟨position, rfl⟩ := Node.exists_child member
    exact ⟨position, later, becomes, rfl⟩
  have kept : machine.store.KeepsPlaces (machine.opening outer bindings).store :=
    .of_eq (Store.arrays_foldl_bindIn _ _ _) (Store.callables_foldl_bindIn _ _ _)
  refine of_becomes (inside.inScope machine.scope fun link isInside => ?_) entered (.inr kept)
  obtain ⟨position, later, becomes, rfl⟩ := isInside
  exact led position later becomes

theorem executeLoop
    {node : Node}
    (tired : manner.tires)
    (standard : machine.Standard)
    (condition : ∀ later, machine.Becomes later → leads (.plain ⟨.evaluate (node.child 0), later⟩))
    (repeated : ∀ later, machine.Becomes later → leads (.plain ⟨.execute (node.child 1), later⟩))
    (rounds : Nat) :
    Plan leads returning manner machine fun steps => steps.executeLoop node rounds machine := by
  induction rounds generalizing machine with
  | zero =>
      exact .ends (.refl standard)
        ⟨.refl machine, fun _ _ => tired, fun _ _ ended => by cases ended⟩
  | succ rounds inductionHypothesis =>
      refine evaluate_bind (condition machine (.refl standard)) fun value later becomes => ?_
      cases value.isTruthy with
      | false => exact .result becomes.holds _
      | true =>
          refine execute_bind (repeated later becomes) (fun _ _ => rfl) fun last after => ?_
          exact inductionHypothesis after.holds
            (fun further onward => condition further (becomes.trans (after.trans onward)))
            fun further onward => repeated further (becomes.trans (after.trans onward))

theorem giveBack
    {node : Node}
    (isGiven : node.kind = .giveBack)
    (blames : manner.Blames node)
    (standard : machine.Standard)
    (operand : leads (.plain ⟨.evaluate (node.child 0), machine⟩)) :
    Plan leads returning manner machine fun steps => steps.giveBack node machine := by
  change Plan _ _ _ _ fun steps : Steps =>
    (if machine.depth = machine.base then Run.fail .returnOutsideFunction node.token
      else steps.evaluate (node.child 0) >>= fun value => pure (.returning value) : Run Flow)
      machine
  split
  · exact .fault standard (blames _ (.noFunction isGiven))
  · exact evaluate_bind operand fun value later becomes => .result becomes.holds _

/-- The rules for statements. How often a loop goes round does not depend on the steps. -/
theorem executeNode
    {id : Option Tree.NodeId}
    (fits : (Moment.mk (.execute id) machine).Fits)
    (rounds : Steps → Nat)
    (settled : (Moment.mk (.execute id) machine).Loops → ∃ count, rounds = fun _ => count) :
    Plan (Moment.mk (.execute id) machine).Leads (Errand.execute id).Gives
      (Moment.mk (.execute id) machine).manner machine
      fun steps => { steps with rounds := rounds steps }.executeNode id machine := by
  obtain ⟨standard, fit⟩ := fits
  change machine.Standard at standard
  cases found : machine.arena.node? id with
  | none =>
      have absent : Run.node? id machine = .ok none machine := by rw [Run.node?, found]
      simp only [Steps.executeNode, Run.bind_of_ok absent]
      exact .result standard _
  | some node =>
      have isStatement : node.kind.isStatement = true := fit.isStatement found
      have part := fun notFunction =>
        Regime.standard.part standard fit found isStatement notFunction
      have operands : node.kind ≠ .function → ∀ position,
          node.kind.executesChild position = false → ∀ later, machine.Becomes later →
          (Moment.mk (.execute id) machine).Leads
            (.plain ⟨.evaluate (node.child position), later⟩) := by
        intro notFunction position evaluated later becomes
        have fits := part notFunction position
        rw [if_neg (by rw [evaluated]; decide)] at fits
        exact .operand found becomes (Regime.standard.evaluates_mono becomes.grows.arena fits)
      have executes : node.kind ≠ .function → ∀ position,
          node.kind.executesChild position = true → ∀ later : Machine, machine.arena ≤ later.arena →
          Regime.standard.executes later.arena (node.child position) := by
        intro notFunction position executed later grows
        have fits := part notFunction position
        rw [if_pos executed] at fits
        exact Regime.standard.executes_mono grows fits
      have parts : node.kind ≠ .function → ∀ position,
          node.kind.executesChild position = true → ∀ later, machine.Becomes later →
          (Moment.mk (.execute id) machine).Leads
            (.plain ⟨.execute (node.child position), later⟩) :=
        fun notFunction position executed later becomes =>
          .part found becomes (executes notFunction position executed later becomes.grows.arena)
      have blames : (Moment.mk (.execute id) machine).manner.Blames node := Moment.blames found
      simp only [Steps.executeNode, Run.bind_of_ok (Run.node?_of_eq found)]
      cases kind : node.kind <;> rw [kind] at isStatement operands executes parts
      case statements =>
        refine rounding (executeAll standard fun id member later becomes => ?_) rounds
        obtain ⟨position, rfl⟩ := Node.exists_child member
        exact parts (by decide) position rfl later becomes
      case declaration =>
        refine evaluate_bind (operands (by decide) 0 rfl machine (.refl standard))
          fun value later becomes => ?_
        exact steady becomes.holds ((Regime.Obeys.define _ value).bind fun _ => .pure _)
          ((Uncounted.define _ value).bind fun _ => .pure _)
          ((Tame.define _ value).bind fun _ => .pure _)
      case echo =>
        refine evaluate_bind (operands (by decide) 0 rfl machine (.refl standard))
          fun value later becomes => ?_
        exact steady becomes.holds
          ((Regime.Obeys.textOf value).bind fun _ => (Regime.Obeys.write _ _).bind fun _ => .pure _)
          ((Uncounted.textOf value).bind fun _ => (Uncounted.write _ _).bind fun _ => .pure _)
          ((Tame.textOf value).bind fun _ =>
            (Tame.write (fun _ => blames _ (.output _ kind)) _).bind fun _ => .pure _)
      case discard =>
        exact evaluate_bind (operands (by decide) 0 rfl machine (.refl standard))
          fun value later becomes => .result becomes.holds _
      case block =>
        have visits : machine.Visits Regime.standard.calls (machine.opening machine.scope [])
          fun later => { later with scope := machine.scope } := .block []
        refine rounding (executeBlock standard visits fun position later becomes => ?_) rounds
        exact .inner found kind becomes (executes (by decide) position rfl later
          (Arena.le_trans visits.grows.arena becomes.grows.arena))
      case branch =>
        refine evaluate_bind (operands (by decide) 0 rfl machine (.refl standard))
          fun condition later becomes => ?_
        cases condition.isTruthy with
        | true => exact execute (parts (by decide) 1 rfl later becomes)
        | false => exact execute (parts (by decide) 2 rfl later becomes)
      case loop =>
        have loops : (Moment.mk (.execute id) machine).Loops := ⟨id, node, rfl, found, kind⟩
        obtain ⟨count, rfl⟩ := settled loops
        exact rounding (executeLoop loops standard (operands (by decide) 0 rfl)
          (parts (by decide) 1 rfl) count) _
      case function =>
        exact steady standard (.declareFunction found kind) (.declareFunction node)
          (.declareFunction node)
      case giveBack =>
        exact rounding
          (giveBack kind blames standard (operands (by decide) 0 rfl machine (.refl standard)))
          rounds
      all_goals cases isStatement

/-! ## Calls -/

/-- The rule for functions that a program has declared. -/
theorem callFunction
    {declared : Function}
    {arguments : List Value}
    (fits : (Moment.mk (.call (.function declared) arguments) machine).Fits) :
    Plan (Moment.mk (.call (.function declared) arguments) machine).Leads
      (Errand.call (.function declared) arguments).Gives manner machine
      fun steps => steps.callFunction declared arguments machine := by
  obtain ⟨standard, called⟩ := fits
  change machine.Standard at standard
  cases found : machine.arena.node? declared.body with
  | none =>
      have absent : Run.node? declared.body machine = .ok none machine := by
        rw [Run.node?, found]
      simp only [Steps.callFunction, Run.bind_of_ok absent]
      exact .result standard _
  | some body =>
      have visits : machine.Visits Regime.standard.calls
          (machine.opening declared.closure (declared.parameters.zip arguments))
          fun later => { later with scope := machine.scope } := .body _ called
      have executes := Regime.standard.body standard called found
      simp only [Steps.callFunction, Run.bind_of_ok (Run.node?_of_eq found)]
      refine bind
        (executeBlock standard visits fun position later becomes =>
          .body found becomes (Regime.standard.executes_mono
            (Arena.le_trans visits.grows.arena becomes.grows.arena) (executes position)))
        (fun value flow given => ⟨value, rfl, fun _ => ?_⟩) fun flow later becomes => ?_
      · rw [given]
      · cases flow <;> exact .result becomes.holds _

/-- A built-in function that runs no program begins nothing. -/
theorem perform
    {gives : Value → Value → Prop}
    {given : Builtin}
    {arguments : List Value}
    (standard : machine.Standard)
    (runsNothing : given.action ≠ .runFile)
    (callsNothing : given.action ≠ .apply)
    (pushes : given.action = .push → manner.pushes)
    (refuses : ∀ reason, manner.fails (given.refusal reason)) :
    Plan leads gives manner machine fun steps => Builtin.perform steps given arguments machine := by
  have same (steps : Steps) :
      Builtin.perform steps given arguments = Builtin.perform (Run.within 0) given arguments := by
    unfold Builtin.perform
    rw [(Answers.answer runsNothing callsNothing steps (Run.within 0) arguments).1]
  simp only [same]
  have obey : Regime.standard.StepsObey (Run.within 0) (Run.within 0) :=
    ⟨rfl, fun _ => .interrupted _, fun _ => .interrupted _, fun _ _ => .interrupted _⟩
  have answers :=
    (Answers.answer runsNothing callsNothing (Run.within 0) (Run.within 0) arguments).2
  refine .ends (Regime.Obeys.perform obey given arguments machine (.refl machine) standard).2
    ⟨?_, fun later ended => absurd ended (answers.perform_ne_exhausted machine later),
      fun fault later failed => ?_⟩
  · by_cases push : given.action = .push
    · exact .inl (pushes push)
    · exact .inr (Builtin.keepsPlaces_perform (.answer runsNothing callsNothing push _ _) machine)
  · obtain ⟨reason, rfl⟩ := answers.exists_refusal failed
    exact refuses reason

end Plan

/-! ## Included programs -/

/-- What is left of the call of a built-in function after the program that it has run. -/
def Link.closing (given : Builtin) (found source : String) (machine : Machine) :
    Ending Flow → Ending Value := fun ending =>
  match Run.leave machine.scope machine.base ending with
  | .ok () later => .ok .null later
  | .error (.fault fault) later =>
      .error (.fault (refusal given found [fault.withSource source])) later
  | .error .exhausted later => .error .exhausted later

theorem Link.opens_ofProgram (given : Builtin) (found source : String) (machine : Machine) :
    (ofProgram given found source machine).Opens
      (fun steps => closing given found source machine
        (steps.outcome (ofProgram given found source machine).moment))
      fun flow last _ => closing given found source machine (.ok flow last) := by
  intro steps
  dsimp only
  cases steps.outcome (ofProgram given found source machine).moment with
  | ok flow last => rfl
  | error interrupt last => cases interrupt <;> rfl

/-- A built-in function that runs a program first finds and reads it, and if it is read
without faults, its root is executed at a top level of its own. -/
theorem Builtin.perform_of_runFile
    {given : Builtin}
    (runs : given.action = .runFile)
    (arguments : List Value)
    (machine : Machine) :
    ∃ located later, Meaning.locate (arguments.headD .null) machine = .ok located later ∧
      ∀ steps, perform steps given arguments machine =
        match located with
        | .error reason =>
            .error (.fault (Fault.ofCause (.refusal (given.name ++ "(): " ++ reason)) none)) later
        | .ok (found, source) =>
            if (later.readSource source).1.2.isEmpty then
              Link.closing given found source later
                (steps.outcome (Link.ofProgram given found source later).moment)
            else .error (.fault (Link.refusal given found (later.readSource source).1.2))
              (later.readSource source).2 := by
  obtain ⟨located, later, ends⟩ := (AsksForFiles.locate (arguments.headD .null)).answers machine
  refine ⟨located, later, ends, fun steps => ?_⟩
  have answers : Builtin.answer steps given.action arguments machine =
      Meaning.runLocated steps located later := by
    rw [runs]
    change Builtin.runFile steps (arguments.headD .null) machine = _
    rw [Meaning.runFile_eq, Run.bind_of_ok ends]
  unfold perform
  simp only [Run.bind_eq, answers]
  cases located with
  | error reason => rfl
  | ok program =>
      obtain ⟨found, source⟩ := program
      dsimp only
      simp only [Meaning.runLocated, Run.bind_eq, Run.sourceWith_eq]
      cases faultless : (later.readSource source).1.2.isEmpty with
      | false =>
          simp only [Bool.false_eq_true, if_false, Run.goOn, pure, EStateM.pure, faultless]
          rfl
      | true =>
          simp only [if_true, Run.attempt, Run.programWith_eq]
          change _ = Link.closing given found source later
            (steps.execute (some (later.readSource source).1.1) (later.starting source))
          unfold Link.closing
          cases Run.leave later.scope later.base
              (steps.execute (some (later.readSource source).1.1) (later.starting source)) with
          | ok value last => rfl
          | error interrupt last => cases interrupt <;> rfl

theorem Link.machineAfter_closing
    (given : Builtin)
    (found source : String)
    (machine : Machine)
    (ending : Ending Flow) :
    machineAfter (closing given found source machine ending) =
      (ofProgram given found source machine).back (machineAfter ending) := by
  have left := Run.machineAfter_leave machine.scope machine.base ending
  unfold closing
  cases ends : Run.leave machine.scope machine.base ending with
  | ok value later =>
      rw [ends] at left
      exact left
  | error interrupt later =>
      rw [ends] at left
      cases interrupt <;> exact left

/-- To pass on the output of a program uses up no bound. -/
theorem Link.closing_ok_ne_exhausted
    (given : Builtin)
    (found source : String)
    (machine : Machine)
    (flow : Flow)
    (last later : Machine) :
    closing given found source machine (.ok flow last) ≠ .error .exhausted later := by
  intro ended
  unfold closing at ended
  cases ends : Run.leave machine.scope machine.base (.ok flow last) with
  | ok value after => rw [ends] at ended; cases ended
  | error interrupt after =>
      rw [ends] at ended
      cases interrupt with
      | fault => cases ended
      | exhausted => exact Uncounted.flush.tireless _ _ ends

/-- After a program that has run to its end, a built-in function does nothing but to pass on
the output, and may refuse its task because that is not possible. -/
theorem Link.allows_closing
    {manner : Manner}
    {given : Builtin}
    (refuses : ∀ reason, manner.fails (given.refusal reason))
    (found source : String)
    (machine : Machine)
    (flow : Flow)
    (last : Machine) :
    manner.Allows ((ofProgram given found source machine).back last)
      (closing given found source machine (.ok flow last)) where
  keeps := by
    rw [machineAfter_closing]
    exact .refl _
  tires after ended :=
    absurd ended (closing_ok_ne_exhausted given found source machine flow last after)
  fails fault after ended := by
    unfold closing at ended
    split at ended
    · cases ended
    · cases ended
      exact refuses _
    · cases ended

theorem Discipline.locate (discipline : Discipline) (path : Value) :
    discipline.relates (Meaning.locate path) (Meaning.locate path) := by
  unfold Meaning.locate
  cases Builtin.pathOf path with
  | error reason => exact discipline.pure _
  | ok path =>
      apply discipline.bind (discipline.programPath? path)
      intro found
      cases found with
      | none => exact discipline.pure _
      | some found =>
          exact discipline.bind (discipline.readText found) fun text => discipline.pure _

/-- The rule for the built-in function that runs a program. -/
theorem Plan.runFile
    {leads : Link → Prop}
    {gives : Value → Value → Prop}
    {manner : Manner}
    {machine : Machine}
    {given : Builtin}
    {arguments : List Value}
    (runs : given.action = .runFile)
    (refuses : ∀ reason, manner.fails (given.refusal reason))
    (standard : machine.Standard)
    (led : ∀ found source later, machine.Becomes later →
      leads (.ofProgram given found source later)) :
    Plan leads gives manner machine
      fun steps => Builtin.perform steps given arguments machine := by
  obtain ⟨located, later, ends, performs⟩ := Builtin.perform_of_runFile runs arguments machine
  have becomes : machine.Becomes later := by
    have sought := ((Regime.Obeys.discipline Regime.standard machine).locate
      (arguments.headD .null) machine (.refl machine) standard).2
    rwa [ends] at sought
  have keeps : machine.store.KeepsPlaces later.store := by
    have asked := (Tame.of_asksForFiles (.locate (arguments.headD .null)) :
      Tame (fun _ => False) _).keeps machine
    rwa [ends] at asked
  simp only [performs]
  cases located with
  | error reason => exact .ends becomes (.fault (.inr keeps) (refuses reason))
  | ok program =>
      obtain ⟨found, source⟩ := program
      dsimp only
      split
      · refine .begins (led found source later becomes)
          (Link.opens_ofProgram given found source later) (.inr (keeps.trans (.of_eq rfl rfl)))
          (fun last after => becomes.trans (after.of_visit becomes.holds (.program source)))
          (fun _ _ _ _ inFunction => absurd rfl inFunction) fun flow last after =>
            .ends ?_ (Link.allows_closing refuses found source later flow last)
        rw [Link.machineAfter_closing]
        exact .refl (after.of_visit becomes.holds (.program source)).holds
      · exact .ends (becomes.trans (.step becomes.holds (.read later source)))
          (.fault (.inr (keeps.trans (.of_eq rfl rfl))) (refuses _))

/-! ## Errands -/

/-- Whatever may be begun goes on as it is led. How often a loop goes round is said
beforehand. -/
theorem Moment.Fits.plan
    {moment : Moment}
    (fits : moment.Fits)
    (rounds : Steps → Nat)
    (settled : moment.Loops → ∃ count, rounds = fun _ => count) :
    Plan moment.Leads moment.errand.Gives moment.manner moment.machine
      fun steps => moment.work (rounds steps) steps := by
  obtain ⟨errand, machine⟩ := moment
  cases errand with
  | evaluate id => exact (Plan.evaluateNode fits).rounding rounds
  | execute id => exact Plan.executeNode fits rounds settled
  | call callable arguments =>
      cases callable with
      | function declared => exact (Plan.callFunction fits).rounding rounds
      | builtin given =>
          obtain ⟨standard, place, stored⟩ := fits
          have callsNothing : ∀ builtin ∈ Builtin.standard, builtin.action ≠ .apply := by decide
          have performed : Plan (Moment.mk (.call (.builtin given) arguments) machine).Leads
              (Errand.call (.builtin given) arguments).Gives
              (Moment.mk (.call (.builtin given) arguments) machine).manner machine
              fun steps => Builtin.perform steps given arguments machine := by
            have refuses (reason : String) :
                (Moment.mk (.call (.builtin given) arguments) machine).manner.fails
                  (given.refusal reason) := .refusal reason rfl
            by_cases runs : given.action = .runFile
            · exact .runFile runs refuses standard fun found source later becomes =>
                .program found source runs becomes
            · exact .perform standard runs
                (callsNothing given (standard.builtins place given stored))
                (fun push => ⟨given, arguments, rfl, push⟩) refuses
          exact performed.rounding rounds

end Scripting
