import Scripting.Proofs.Running.Regime

/-!
# Runs keep to every regime

Each part of a run keeps to a regime when the steps do by which it goes on, and begins
nothing with them that does not fit.  So within any bound the steps keep to it, and the
watched steps do the same as the others (`Regime.obeys_within`).

Main statements: `Regime.throughout_program`, that nothing is begun in the course of a
program that does not fit, and `Regime.reaches_program`, that the machine it leaves may
come after the one it was read on.
-/

namespace Scripting

open Tree (Arena Node NodeKind)

variable {α β : Type}

namespace Run

/-- Reads a program and executes it, whatever faults it was read with. -/
def programWith (steps : Steps) (source : String) : Run Unit := do
  let (root, _) ← readSource source
  interpretWith steps root

theorem programWith_eq (steps : Steps) (source : String) (machine : Machine) :
    programWith steps source machine =
      leave machine.scope machine.base
        (steps.execute (some (machine.readSource source).1.1) (machine.starting source)) :=
  interpretWith_eq steps _ _

/-- A source without faults is run as a program whose fault is given back. -/
theorem sourceWith_eq (steps : Steps) (source : String) (machine : Machine) :
    sourceWith steps source machine =
      if (machine.readSource source).1.2.isEmpty then
        (attempt (programWith steps source) >>= fun outcome =>
          match outcome with
          | .ok () => pure []
          | .error fault => pure [fault.withSource source]) machine
      else .ok (machine.readSource source).1.2 (machine.readSource source).2 := by
  have reading : sourceWith steps source machine =
      (if !(machine.readSource source).1.2.isEmpty then pure (machine.readSource source).1.2
        else attempt (interpretWith steps (machine.readSource source).1.1) >>= fun outcome =>
          match outcome with
          | .ok () => pure []
          | .error fault => pure [fault.withSource source]) (machine.readSource source).2 := rfl
  rw [reading]
  cases (machine.readSource source).1.2.isEmpty <;> rfl

/-- The fault that ends a program is given back, like those that are found while it is
read. -/
theorem sourceWith_ne_fault
    (steps : Steps)
    (source : String)
    (machine : Machine)
    (fault : Fault)
    (later : Machine) :
    sourceWith steps source machine ≠ .error (.fault fault) later := by
  intro ended
  rw [sourceWith_eq] at ended
  split at ended
  · cases ran : programWith steps source machine with
    | ok value last =>
        simp only [Bind.bind, EStateM.bind, attempt, ran] at ended
        cases ended
    | error interrupt last =>
        cases interrupt <;> simp only [Bind.bind, EStateM.bind, attempt, ran] at ended <;>
          cases ended
  · cases ended

theorem machineAfter_leave
    (scope : Scope)
    (base : Nat)
    (result : EStateM.Result Interrupt Machine Flow) :
    machineAfter (leave scope base result) =
      { machineAfter result with scope := scope, base := base } := by
  cases result with
  | ok flow machine =>
      change machineAfter (flush { machine with scope := scope, base := base }) = _
      unfold flush
      split <;> rfl
  | error interrupt machine => rfl

/-- What is left of work in one call more. -/
def callEnd (token : Token) :
    EStateM.Result Interrupt Machine α → EStateM.Result Interrupt Machine α
  | .ok value machine => .ok value { machine with depth := machine.depth - 1 }
  | .error (.fault fault) machine =>
      .error (.fault (fault.orAt token)) { machine with depth := machine.depth - 1 }
  | .error .exhausted machine => .error .exhausted { machine with depth := machine.depth - 1 }

theorem inCall_eq (token : Token) (work : Run α) (machine : Machine) :
    inCall token work machine =
      callEnd token (work { machine with depth := machine.depth + 1 }) := by
  unfold inCall
  cases work { machine with depth := machine.depth + 1 } with
  | ok value after => rfl
  | error interrupt after => cases interrupt <;> rfl

theorem machineAfter_callEnd
    (token : Token)
    (result : EStateM.Result Interrupt Machine α) :
    machineAfter (callEnd token result) =
      { machineAfter result with depth := (machineAfter result).depth - 1 } := by
  cases result with
  | ok value after => rfl
  | error interrupt after => cases interrupt <;> rfl

end Run

theorem machineAfter_resultIn
    (scope : Scope)
    (result : EStateM.Result Interrupt Machine α) :
    machineAfter (resultIn scope result) = { machineAfter result with scope := scope } := by
  cases result <;> rfl

theorem Steps.executeBlock_eq
    (steps : Steps)
    (outer : Scope)
    (bindings : List (String × Value))
    (node : Node)
    (machine : Machine) :
    steps.executeBlock outer bindings node machine =
      resultIn machine.scope
        (steps.executeAll node.children (machine.opening outer bindings)) := by
  change Run.inScope (outer.inside machine.store.nextFrame) (steps.executeAll node.children)
    { machine with store := (machine.opening outer bindings).store } = _
  unfold Run.inScope
  have inner : steps.executeAll node.children
      { machine with
        store := (machine.opening outer bindings).store
        scope := outer.inside machine.store.nextFrame } =
      steps.executeAll node.children (machine.opening outer bindings) := rfl
  dsimp only
  rw [inner]
  cases steps.executeAll node.children (machine.opening outer bindings) <;> rfl

theorem Run.node?_of_eq
    {machine : Machine}
    {id : Option Tree.NodeId}
    {node : Node}
    (found : machine.arena.node? id = some node) :
    Run.node? id machine = .ok (some node) machine := by
  rw [Run.node?, found]

/-- A block is executed in a scope inside the current one. -/
theorem Steps.executeNode_block
    (steps : Steps)
    {machine : Machine}
    {id : Option Tree.NodeId}
    {node : Node}
    (found : machine.arena.node? id = some node)
    (kind : node.kind = .block) :
    steps.executeNode id machine = steps.executeBlock machine.scope [] node machine := by
  unfold Steps.executeNode
  rw [Run.bind_of_ok (Run.node?_of_eq found)]
  simp only [kind]
  rfl

/-- A function leaves the machine as the block does that is its body. -/
theorem Steps.machineAfter_callFunction
    (steps : Steps)
    {machine : Machine}
    {declared : Function}
    {body : Node}
    (found : machine.arena.node? declared.body = some body)
    (arguments : List Value) :
    machineAfter (steps.callFunction declared arguments machine) =
      machineAfter (steps.executeBlock declared.closure (declared.parameters.zip arguments) body
        machine) := by
  unfold Steps.callFunction
  rw [Run.bind_of_ok (Run.node?_of_eq found)]
  dsimp only
  cases ends : steps.executeBlock declared.closure (declared.parameters.zip arguments) body
      machine with
  | ok flow later =>
      rw [Run.bind_of_ok ends]
      cases flow <;> rfl
  | error interrupt later =>
      rw [Run.bind_of_error ends]
      rfl

namespace Regime.Obeys

variable {regime : Regime} {machine : Machine}

/-! ## The steps of a machine -/

theorem textOf (value : Value) : regime.Obeys machine (Run.textOf value) (Run.textOf value) :=
  unmoved fun _ => rfl

theorem elementsOf (id : ArrayId) :
    regime.Obeys machine (Run.elementsOf id) (Run.elementsOf id) :=
  unmoved fun _ => rfl

theorem valueOf (name : Token) : regime.Obeys machine (Run.valueOf name) (Run.valueOf name) := by
  apply unmoved
  intro machine
  unfold Run.valueOf
  cases machine.store.get machine.scope name <;> rfl

theorem assign (name : Token) (value : Value) :
    regime.Obeys machine (Run.assign name value) (Run.assign name value) := by
  intro later _ holds
  refine ⟨rfl, ?_⟩
  unfold Run.assign
  cases found : later.store.holder? later.scope name.lexeme with
  | some frame => exact .step holds (.assign value found)
  | none => exact .refl holds

theorem define (name : String) (value : Value) :
    regime.Obeys machine (Run.define name value) (Run.define name value) :=
  step fun later _ => .define later name value

theorem newArray (items : Array Value) :
    regime.Obeys machine (Run.newArray items) (Run.newArray items) :=
  step fun later _ => .addArray later items

theorem write (text : String) (token : Token) :
    regime.Obeys machine (Run.write text token) (Run.write text token) := by
  intro later _ holds
  refine ⟨rfl, ?_⟩
  unfold Run.write
  split
  · exact .refl holds
  · exact .step holds (.ask (.write _ _))

/-- To keep to a regime is a discipline. -/
def discipline (regime : Regime) (machine : Machine) : Discipline where
  relates := regime.Obeys machine
  pure := pure
  interrupted := interrupted
  bind := bind
  look _ := unmoved fun _ => rfl
  ask _ changes := step fun later _ => .ask (changes later.host)
  newArray := newArray
  push id value := step fun later _ => .push later id value

/-! ## Visits -/

theorem inCall
    {work watched : Run α}
    (obeys : regime.Obeys machine work watched)
    (token : Token) :
    regime.Obeys machine (Run.inCall token work) (Run.inCall token watched) :=
  visit fun later _ _ => ⟨_, _, _, _, Run.callEnd token, .call, obeys.of_grows,
    Run.inCall_eq token work later, Run.inCall_eq token watched later,
    Run.machineAfter_callEnd token⟩

section Steps

variable {steps watched : Steps} (obey : regime.StepsObey steps watched)

include obey

theorem executeAll
    {ids : List (Option Tree.NodeId)}
    (fit : ∀ id ∈ ids, regime.executes machine.arena id) :
    regime.Obeys machine (steps.executeAll ids) (watched.executeAll ids) := by
  induction ids with
  | nil => exact pure _
  | cons id others inductionHypothesis =>
      rw [List.forall_mem_cons] at fit
      apply (obey.execute fit.1).bind
      intro flow
      cases flow with
      | returning value => exact pure _
      | normal => exact inductionHypothesis fit.2

/-- The statements of a block are executed in a scope inside the current one. -/
theorem executeBlock
    {node : Node}
    (fit : ∀ position, regime.executes machine.arena (node.child position))
    {outer : Machine → Scope}
    (opens : ∀ later : Machine, machine.Grows later → ∀ bindings,
      later.Visits regime.calls (later.opening (outer later) bindings)
        fun last => { last with scope := later.scope })
    (bindings : List (String × Value)) :
    regime.Obeys machine
      (fun later => steps.executeBlock (outer later) bindings node later)
      (fun later => watched.executeBlock (outer later) bindings node later) := by
  apply visit
  intro later grows _
  refine ⟨_, _, _, _, resultIn later.scope, opens later grows bindings, fun inner => ?_,
    Steps.executeBlock_eq steps _ _ _ _, Steps.executeBlock_eq watched _ _ _ _,
    machineAfter_resultIn later.scope⟩
  apply executeAll obey
  intro id member
  obtain ⟨position, rfl⟩ := Node.exists_child member
  exact regime.executes_mono inner.arena (fit position)

theorem programWith (source : String) :
    regime.Obeys machine (Run.programWith steps source) (Run.programWith watched source) := by
  apply visit
  intro later _ holds
  have executes := obey.execute (regime.root source holds)
  exact ⟨_, _, _, _, Run.leave later.scope later.base, .program source, fun _ => executes,
    Run.programWith_eq steps source later, Run.programWith_eq watched source later,
    Run.machineAfter_leave later.scope later.base⟩

theorem sourceWith (source : String) :
    regime.Obeys machine (Run.sourceWith steps source) (Run.sourceWith watched source) := by
  intro later grows holds
  rw [Run.sourceWith_eq, Run.sourceWith_eq]
  split
  · refine bind (programWith obey source).attempt (fun outcome => ?_) later grows holds
    cases outcome <;> exact pure _
  · exact ⟨rfl, .step holds (.read later source)⟩

theorem apply (target items : Value) :
    regime.Obeys machine (Builtin.apply steps target items)
      (Builtin.apply watched target items) := by
  unfold Builtin.apply
  split
  next id items =>
      refine sight_bind (fun machine => machine.store.callable? id) fun later _ holds => ?_
      cases found : later.store.callable? id with
      | none => exact pure _
      | some callable =>
          have called := regime.found holds found
          refine (elementsOf items).bind fun arguments =>
            (obey.call _ called).attempt.bind fun outcome => ?_
          cases outcome <;> exact pure _
  next => exact pure _

theorem perform (builtin : Builtin) (arguments : List Value) :
    regime.Obeys machine (Builtin.perform steps builtin arguments)
      (Builtin.perform watched builtin arguments) :=
  (discipline regime machine).perform steps watched (sourceWith obey) (apply obey) builtin
    arguments

/-! ## Calls -/

theorem callFunction
    {declared : Function}
    (called : regime.calls machine (.function declared))
    (arguments : List Value) :
    regime.Obeys machine (steps.callFunction declared arguments)
      (watched.callFunction declared arguments) := by
  refine sight_bind (fun machine => machine.arena.node? declared.body) fun later grows holds => ?_
  cases found : later.arena.node? declared.body with
  | none => exact pure _
  | some body =>
      have laterCalled := regime.calls_mono grows called
      have executes := regime.body holds laterCalled found
      refine (executeBlock obey executes (fun last further bindings => ?_) _).bind fun flow => ?_
      · exact .body bindings (regime.calls_mono further laterCalled)
      · cases flow <;> exact pure _

theorem callCallable
    {callable : Callable}
    (called : regime.calls machine callable)
    (arguments : List Value) :
    regime.Obeys machine (steps.callCallable callable arguments)
      (watched.callCallable callable arguments) := by
  cases callable with
  | function declared => exact callFunction obey called arguments
  | builtin given => exact perform obey given arguments

theorem callFound
    {found : Option Callable}
    (called : ∀ callable ∈ found, regime.calls machine callable)
    (paren : Token)
    (arguments : Array Value) :
    regime.Obeys machine (steps.callFound paren arguments found)
      (watched.callFound paren arguments found) := by
  cases found with
  | none => exact fail _ _
  | some callable =>
      simp only [Steps.callFound]
      split
      · exact fail _ _
      · refine sight_bind id fun later grows _ => ?_
        have laterCalled := regime.calls_mono grows (called callable rfl)
        dsimp only [id]
        split
        · exact fail _ _
        · exact (obey.call _ laterCalled).inCall paren

theorem callValue (paren : Token) (target : Value) (arguments : Array Value) :
    regime.Obeys machine (steps.callValue paren target arguments)
      (watched.callValue paren target arguments) := by
  rw [Steps.callValue_eq, Steps.callValue_eq]
  cases target with
  | callable id =>
      exact sight_bind (fun machine => machine.store.callable? id) fun later _ holds =>
        callFound obey (fun callable => regime.found holds) paren arguments
  | _ => exact callFound obey (by simp) paren arguments

/-! ## Evaluation -/

theorem evaluateAll
    {ids : List (Option Tree.NodeId)}
    (fit : ∀ id ∈ ids, regime.evaluates machine.arena id)
    (values : Array Value) :
    regime.Obeys machine (steps.evaluateAll ids values) (watched.evaluateAll ids values) := by
  induction ids generalizing values with
  | nil => exact pure _
  | cons id others inductionHypothesis =>
      rw [List.forall_mem_cons] at fit
      exact (obey.evaluate fit.1).bind fun value => inductionHypothesis fit.2 _

omit obey in
theorem unaryValue (operator : Token) (operand : Value) :
    regime.Obeys machine (Steps.unaryValue operator operand)
      (Steps.unaryValue operator operand) := by
  unfold Steps.unaryValue
  split
  · cases operand <;> first | exact pure _ | exact fail _ _
  · exact pure _
  · exact pure _

omit obey in
theorem numbers (operator : Token) (left right : Value) :
    regime.Obeys machine (Steps.numbers operator left right)
      (Steps.numbers operator left right) := by
  unfold Steps.numbers
  split
  · exact pure _
  · exact fail _ _

omit obey in
theorem binaryValue (operator : Token) (left right : Value) :
    regime.Obeys machine (Steps.binaryValue operator left right)
      (Steps.binaryValue operator left right) := by
  have ofNumbers : ∀ value : Float × Float → Value,
      regime.Obeys machine
        (Steps.numbers operator left right >>= fun pair => (Pure.pure (value pair) : Run Value))
        (Steps.numbers operator left right >>= fun pair => Pure.pure (value pair)) :=
    fun _ => (numbers operator left right).bind fun _ => pure _
  unfold Steps.binaryValue
  split
  · exact pure _
  · exact pure _
  · unfold Steps.sum
    split
    · exact pure _
    · exact (textOf _).bind fun _ => (textOf _).bind fun _ => pure _
    · exact (textOf _).bind fun _ => (textOf _).bind fun _ => pure _
    · exact fail _ _
  · exact ofNumbers _
  · exact ofNumbers _
  · apply (numbers operator left right).bind
    intro pair
    simp only
    split
    · exact fail _ _
    · exact pure _
  · exact ofNumbers _
  · exact ofNumbers _
  · exact ofNumbers _
  · exact ofNumbers _
  · exact pure _

omit obey in
theorem elementAt (bracket : Token) (target position : Value) :
    regime.Obeys machine (Steps.elementAt bracket target position)
      (Steps.elementAt bracket target position) := by
  unfold Steps.elementAt
  cases target with
  | array id =>
      cases position with
      | number number =>
          apply (elementsOf id).bind
          intro items
          simp only
          split
          · exact pure _
          · exact fail _ _
      | _ => exact fail _ _
  | _ => exact fail _ _

section Expressions

variable
  {node : Node}
  (fit : ∀ position, regime.evaluates machine.arena (node.child position))

include fit

theorem logical : regime.Obeys machine (steps.logical node) (watched.logical node) := by
  apply (obey.evaluate (fit 0)).bind
  intro left
  split
  all_goals
    dsimp only
    split
    · exact pure _
    · exact obey.evaluate (fit 1)

theorem callNode : regime.Obeys machine (steps.callNode node) (watched.callNode node) := by
  refine (obey.evaluate (fit 0)).bind fun target =>
    (evaluateAll obey (fun id member => ?_) _).bind fun arguments =>
      callValue obey node.token target arguments
  obtain ⟨position, rfl⟩ := Node.exists_child (List.mem_of_mem_tail member)
  exact fit position

theorem array :
    regime.Obeys machine (steps.evaluateAll node.children #[] >>= Run.newArray)
      (watched.evaluateAll node.children #[] >>= Run.newArray) := by
  refine (evaluateAll obey (fun id member => ?_) _).bind newArray
  obtain ⟨position, rfl⟩ := Node.exists_child member
  exact fit position

end Expressions

theorem evaluateNode
    {id : Option Tree.NodeId}
    (fit : regime.evaluates machine.arena id) :
    regime.Obeys machine (steps.evaluateNode id) (watched.evaluateNode id) := by
  refine sight_bind (fun machine => machine.arena.node? id) fun later grows holds => ?_
  have laterFit := regime.evaluates_mono grows.arena fit
  cases found : later.arena.node? id with
  | none => exact pure _
  | some node =>
      have operand : node.kind.isStatement = false → ∀ position, _ :=
        regime.operand holds laterFit found
      have executed : node.kind.isStatement = true →
          regime.Obeys later (steps.execute id >>= fun _ => (Pure.pure .null : Run Value))
            (watched.execute id >>= fun _ => Pure.pure .null) :=
        fun isStatement => (obey.execute (regime.statement holds laterFit found isStatement)).bind
          fun _ => pure _
      dsimp only
      cases kind : node.kind <;> rw [kind] at operand executed
      case constant => exact pure _
      case group => exact obey.evaluate (operand rfl 0)
      case «variable» => exact valueOf node.token
      case assignment =>
        exact (obey.evaluate (operand rfl 0)).bind fun value =>
          (assign node.token value).bind fun _ => pure value
      case logical => exact logical obey (operand rfl)
      case unary =>
        exact (obey.evaluate (operand rfl 0)).bind fun value => unaryValue node.token value
      case binary =>
        exact (obey.evaluate (operand rfl 0)).bind fun left =>
          (obey.evaluate (operand rfl 1)).bind fun right => binaryValue node.token left right
      case call => exact callNode obey (operand rfl)
      case array => exact array obey (operand rfl)
      case index =>
        exact (obey.evaluate (operand rfl 0)).bind fun target =>
          (obey.evaluate (operand rfl 1)).bind fun position => elementAt node.token target position
      case parameter => exact pure _
      all_goals exact executed rfl

theorem executeLoop
    {node : Node}
    (condition : regime.evaluates machine.arena (node.child 0))
    (repeated : regime.executes machine.arena (node.child 1))
    (rounds : Nat) :
    regime.Obeys machine (steps.executeLoop node rounds) (watched.executeLoop node rounds) := by
  induction rounds with
  | zero => exact interrupted _
  | succ rounds inductionHypothesis =>
      apply (obey.evaluate condition).bind
      intro value
      split
      · apply (obey.execute repeated).bind
        intro flow
        cases flow with
        | returning value => exact pure _
        | normal => exact inductionHypothesis
      · exact pure _

omit obey in
theorem declareFunction
    {id : Option Tree.NodeId}
    {node : Node}
    (found : machine.arena.node? id = some node)
    (kind : node.kind = .function) :
    regime.Obeys machine (Steps.declareFunction node) (Steps.declareFunction node) := by
  intro later grows holds
  have laterFound : later.arena.node? id = some node := by
    cases id with
    | none => cases found
    | some id => exact Arena.get?_of_le grows.arena found
  have declared := Machine.Step.declare laterFound kind
  exact ⟨rfl, (Regime.Reaches.step holds declared).trans
    (.step (regime.step holds declared).1 (.define _ node.name _))⟩

theorem giveBack
    {node : Node}
    (fit : regime.evaluates machine.arena (node.child 0)) :
    regime.Obeys machine (steps.giveBack node) (watched.giveBack node) := by
  refine sight_bind id fun later grows _ => ?_
  dsimp only [id]
  split
  · exact fail _ _
  · exact (obey.evaluate (regime.evaluates_mono grows.arena fit)).bind fun _ => pure _

theorem executeNode
    {id : Option Tree.NodeId}
    (fit : regime.executes machine.arena id) :
    regime.Obeys machine (steps.executeNode id) (watched.executeNode id) := by
  refine sight_bind (fun machine => machine.arena.node? id) fun later grows holds => ?_
  have laterFit := regime.executes_mono grows.arena fit
  cases found : later.arena.node? id with
  | none => exact pure _
  | some node =>
      have part := regime.part holds laterFit found
      have evaluated : node.kind.isStatement = false →
          regime.Obeys later (steps.evaluate id >>= fun _ => (Pure.pure .normal : Run Flow))
            (watched.evaluate id >>= fun _ => Pure.pure .normal) :=
        fun isExpression =>
          (obey.evaluate (regime.expression holds laterFit found isExpression)).bind fun _ => pure _
      dsimp only
      cases kind : node.kind <;> rw [kind] at part evaluated
      case statements =>
        apply executeAll obey
        intro id member
        obtain ⟨position, rfl⟩ := Node.exists_child member
        exact part rfl (by decide) position
      case declaration =>
        exact (obey.evaluate (part rfl (by decide) 0)).bind fun value =>
          (define node.name value).bind fun _ => pure _
      case echo =>
        exact (obey.evaluate (part rfl (by decide) 0)).bind fun value =>
          (textOf value).bind fun text => (write _ _).bind fun _ => pure _
      case discard => exact (obey.evaluate (part rfl (by decide) 0)).bind fun _ => pure _
      case block =>
        exact executeBlock obey (part rfl (by decide)) (fun last _ bindings => .block bindings) []
      case branch =>
        apply (obey.evaluate (part rfl (by decide) 0)).bind
        intro condition
        split
        · exact obey.execute (part rfl (by decide) 1)
        · exact obey.execute (part rfl (by decide) 2)
      case loop =>
        rw [obey.rounds]
        exact executeLoop obey (part rfl (by decide) 0) (part rfl (by decide) 1) steps.rounds
      case function => exact declareFunction found kind
      case giveBack => exact giveBack obey (part rfl (by decide) 0)
      all_goals exact evaluated rfl

end Steps

/-- What is allowed is begun. -/
theorem guarded
    {work watched : Run α}
    (obeys : regime.Obeys machine work watched)
    {allowed : Machine → Prop}
    (fits : ∀ later : Machine, machine.Grows later → regime.holds later → allowed later)
    (alarm : Interrupt) :
    regime.Obeys machine work (Run.guarded allowed alarm watched) := by
  intro later grows holds
  rw [Run.guarded_of_allowed (fits later grows holds)]
  exact obeys later grows holds

end Regime.Obeys

namespace Regime

variable (regime : Regime)

/-- The errands that fit on a machine. -/
def fits (errand : Errand) (machine : Machine) : Prop :=
  match errand with
  | .evaluate id => regime.evaluates machine.arena id
  | .execute id => regime.executes machine.arena id
  | .call callable _ => regime.calls machine callable

variable {regime} {allows : Errand → Machine → Prop}

/-- The watched steps do what the others do, when everything is allowed that fits. -/
theorem StepsObey.guarded
    {steps watched : Steps}
    (obey : regime.StepsObey steps watched)
    (allowed : ∀ errand machine, regime.holds machine → regime.fits errand machine →
      allows errand machine)
    (alarm : Interrupt) :
    regime.StepsObey steps (watched.guarded allows alarm) where
  rounds := obey.rounds
  evaluate fit := (obey.evaluate fit).guarded
    (fun _ grows holds =>
      allowed (.evaluate _) _ holds (regime.evaluates_mono grows.arena fit)) alarm
  execute fit := (obey.execute fit).guarded
    (fun _ grows holds =>
      allowed (.execute _) _ holds (regime.executes_mono grows.arena fit)) alarm
  call arguments fit := (obey.call arguments fit).guarded
    (fun _ grows holds =>
      allowed (.call _ arguments) _ holds (regime.calls_mono grows fit)) alarm

theorem StepsObey.next {steps watched : Steps} (obey : regime.StepsObey steps watched) :
    regime.StepsObey steps.next watched.next where
  rounds := congrArg (· + 1) obey.rounds
  evaluate := Obeys.evaluateNode obey
  execute := Obeys.executeNode obey
  call arguments fit := Obeys.callCallable obey fit arguments

/-- Within any bound the watched steps do what the others do. -/
theorem obeys_within
    (allowed : ∀ errand machine, regime.holds machine → regime.fits errand machine →
      allows errand machine)
    (alarm : Interrupt)
    (bound : Nat) :
    regime.StepsObey (Run.within bound) (Run.watched allows alarm bound) := by
  induction bound with
  | zero =>
      have exhausted : regime.StepsObey (Run.within 0) (Run.within 0) :=
        ⟨rfl, fun _ => .interrupted _, fun _ => .interrupted _, fun _ _ => .interrupted _⟩
      exact exhausted.guarded allowed alarm
  | succ bound inductionHypothesis =>
      rw [Run.within_succ]
      exact inductionHypothesis.next.guarded allowed alarm

/-- Nothing is begun in the course of a program that does not fit. -/
theorem throughout_program
    (allowed : ∀ errand machine, regime.holds machine → regime.fits errand machine →
      allows errand machine)
    (bound : Nat)
    (source : String)
    {machine : Machine}
    (holds : regime.holds machine) :
    Run.Throughout allows bound (Run.programWith · source) machine := by
  intro alarm
  have obey := obeys_within allowed alarm bound
  exact (Obeys.programWith obey source machine (.refl machine) holds).1

/-- A program leaves a machine that may come after the one it was read on. -/
theorem reaches_program
    (bound : Nat)
    (source : String)
    {machine : Machine}
    (holds : regime.holds machine) :
    regime.Reaches machine
      (machineAfter (Run.programWith (Run.within bound) source machine)) := by
  have obey : regime.StepsObey _ (Run.watched (fun _ _ => True) .exhausted bound) :=
    obeys_within (fun _ _ _ _ => trivial) .exhausted bound
  exact (Obeys.programWith obey source machine (.refl machine) holds).2

end Regime
end Scripting
