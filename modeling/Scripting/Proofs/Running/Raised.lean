import Scripting.Proofs.Running.Leading

/-!
# Runs in the midst of further calls

A run does not care how many calls are active when it begins, as long as as many more may
be active: with both counts raised it does the same, and leaves the machine that it would
have left, with raised counts (`Raised`).  If the limit is raised further than the number of
calls, so that a call fits in that did not, then the steps may differ in what they do when a
value is called (`StepsRaised.callFound`), and in nothing else.

Main statements: `Raised.programWith`, `StepsRaised.within`.
-/

namespace Scripting

variable {α β : Type}

/-- The machine in the midst of so many more calls, and with so much more room for calls. -/
def Machine.raised (machine : Machine) (calls spare : Nat) : Machine :=
  machine.counting (machine.depth + calls) (machine.base + calls) (machine.limit + spare)

/-- The counts of calls are the same on both machines. -/
structure Machine.SameCounts (machine later : Machine) : Prop where
  depth : later.depth = machine.depth
  base : later.base = machine.base
  limit : later.limit = machine.limit

theorem Machine.SameCounts.trans
    {machine between later : Machine}
    (first : machine.SameCounts between)
    (second : between.SameCounts later) :
    machine.SameCounts later :=
  ⟨second.depth.trans first.depth, second.base.trans first.base, second.limit.trans first.limit⟩

theorem Machine.SameCounts.room
    {machine later : Machine}
    (counts : machine.SameCounts later)
    (room : machine.depth ≤ machine.limit) :
    later.depth ≤ later.limit := by
  rwa [counts.depth, counts.limit]

/-- The other work does on a machine with raised counts what the work does without, unless
more calls are active than may be; and the counts are put back. -/
def Raised (calls spare : Nat) (work other : Run α) : Prop :=
  ∀ machine : Machine, machine.depth ≤ machine.limit →
    other (machine.raised calls spare) = leftAs (·.raised calls spare) (work machine) ∧
      machine.SameCounts (machineAfter (work machine))

/-- With raised counts the other steps do what the steps do. What they do to call a value is
said apart. -/
structure StepsRaised (calls spare : Nat) (steps other : Steps) : Prop where
  rounds : other.rounds = steps.rounds
  evaluate (id : Option Tree.NodeId) :
    Raised calls spare (steps.evaluate id) (other.evaluate id)
  execute (id : Option Tree.NodeId) :
    Raised calls spare (steps.execute id) (other.execute id)
  call (callable : Callable) (arguments : List Value) :
    Raised calls spare (steps.call callable arguments) (other.call callable arguments)
  callFound (paren : Token) (arguments : Array Value) (found : Option Callable) :
    Raised calls spare (steps.callFound paren arguments found)
      (other.callFound paren arguments found)

namespace Raised

variable {calls spare : Nat}

/-! ## Work in general -/

section Work

variable {work other : Run α}

theorem of_uncounted (uncounted : Uncounted work) : Raised calls spare work work := by
  intro machine _
  have same := uncounted.counting machine (machine.depth + calls) (machine.base + calls)
    (machine.limit + spare)
  have kept : work machine =
      leftAs (·.counting machine.depth machine.base machine.limit) (work machine) :=
    uncounted.counting machine machine.depth machine.base machine.limit
  have counts : machine.SameCounts (machineAfter (work machine)) := by
    rw [kept]
    cases work machine <;> exact ⟨rfl, rfl, rfl⟩
  refine ⟨same.trans ?_, counts⟩
  cases ends : work machine with
  | ok value later | error interrupt later =>
      rw [ends] at counts
      simp only [leftAs, Machine.raised, machineAfter] at counts ⊢
      rw [counts.depth, counts.base, counts.limit]

theorem pure (value : α) : Raised calls spare (Pure.pure value) (Pure.pure value) :=
  of_uncounted (.pure value)

theorem fail (cause : Cause) (token : Token) :
    Raised calls spare (Run.fail cause token : Run α) (Run.fail cause token) :=
  of_uncounted (.fail cause token)

theorem interrupted (interrupt : Interrupt) :
    Raised calls spare (throw interrupt : Run α) (throw interrupt) :=
  fun _ _ => ⟨rfl, rfl, rfl, rfl⟩

theorem bind
    {next otherNext : α → Run β}
    (first : Raised calls spare work other)
    (second : ∀ value, Raised calls spare (next value) (otherNext value)) :
    Raised calls spare (work >>= next) (other >>= otherNext) := by
  intro machine room
  obtain ⟨same, counts⟩ := first machine room
  cases ends : work machine with
  | ok value between =>
      rw [ends] at same counts
      rw [Run.bind_of_ok same, Run.bind_of_ok ends]
      obtain ⟨nextSame, nextCounts⟩ := second value between (counts.room room)
      exact ⟨nextSame, counts.trans nextCounts⟩
  | error interrupt between =>
      rw [ends] at same counts
      rw [Run.bind_of_error same, Run.bind_of_error ends]
      exact ⟨rfl, counts⟩

/-- What is read off the machine is something else than its counts, or it is compared in the
same way. -/
theorem get_bind
    {next otherNext : Machine → Run α}
    (each : ∀ machine, Raised calls spare (next machine) (otherNext (machine.raised calls spare))) :
    Raised calls spare (get >>= next) (get >>= otherNext) :=
  fun machine room => each machine machine room

theorem attempt (raised : Raised calls spare work other) :
    Raised calls spare (Run.attempt work) (Run.attempt other) := by
  intro machine room
  obtain ⟨same, counts⟩ := raised machine room
  unfold Run.attempt
  rw [same]
  cases ends : work machine with
  | ok value later =>
      rw [ends] at counts
      exact ⟨rfl, counts⟩
  | error interrupt later =>
      rw [ends] at counts
      cases interrupt <;> exact ⟨rfl, counts⟩

theorem inScope (raised : Raised calls spare work other) (scope : Scope) :
    Raised calls spare (Run.inScope scope work) (Run.inScope scope other) := by
  intro machine room
  obtain ⟨same, counts⟩ := raised { machine with scope := scope } room
  have entered : ({ machine.raised calls spare with scope := scope } : Machine) =
      Machine.raised { machine with scope := scope } calls spare := rfl
  unfold Run.inScope
  dsimp only
  rw [entered, same]
  cases ends : work { machine with scope := scope } with
  | ok value later | error interrupt later =>
      rw [ends] at counts
      exact ⟨rfl, counts.depth, counts.base, counts.limit⟩

/-- Being raised is a discipline. -/
def discipline (calls spare : Nat) : Discipline where
  relates := Raised calls spare
  pure := pure
  interrupted := interrupted
  bind := bind
  look _ := fun _ _ => ⟨rfl, rfl, rfl, rfl⟩
  ask _ _ := fun _ _ => ⟨rfl, rfl, rfl, rfl⟩
  newArray items := of_uncounted (.newArray items)
  push _ _ := fun _ _ => ⟨rfl, rfl, rfl, rfl⟩

end Work

theorem node? (id : Option Tree.NodeId) : Raised calls spare (Run.node? id) (Run.node? id) :=
  fun _ _ => ⟨rfl, rfl, rfl, rfl⟩

theorem newScope (outer : Scope) (bindings : List (String × Value)) :
    Raised calls spare (Run.newScope outer bindings) (Run.newScope outer bindings) :=
  fun _ _ => ⟨rfl, rfl, rfl, rfl⟩

/-- In one call more on either machine, if it is among those that may be active. -/
theorem callEnd
    {work other : Run α}
    (raised : Raised calls spare work other)
    (token : Token)
    {machine : Machine}
    (room : machine.depth < machine.limit) :
    Run.callEnd token (other
        { machine.raised calls spare with depth := (machine.raised calls spare).depth + 1 }) =
      leftAs (·.raised calls spare)
        (Run.callEnd token (work { machine with depth := machine.depth + 1 })) ∧
      machine.SameCounts
        (machineAfter (Run.callEnd token (work { machine with depth := machine.depth + 1 }))) := by
  obtain ⟨same, counts⟩ := raised { machine with depth := machine.depth + 1 } room
  have entered : ({ machine.raised calls spare with
        depth := (machine.raised calls spare).depth + 1 } : Machine) =
      Machine.raised { machine with depth := machine.depth + 1 } calls spare := by
    simp only [Machine.raised, Machine.counting, Nat.add_right_comm]
  have left (later : Machine) (depth : later.depth = machine.depth + 1) :
      ({ later.raised calls spare with depth := (later.raised calls spare).depth - 1 } : Machine) =
        Machine.raised { later with depth := later.depth - 1 } calls spare := by
    simp only [Machine.raised, Machine.counting, depth, Nat.add_sub_cancel, Nat.add_right_comm]
  rw [entered, same]
  cases ends : work { machine with depth := machine.depth + 1 } with
  | ok value later =>
      rw [ends] at counts
      exact ⟨congrArg (EStateM.Result.ok value) (left later counts.depth),
        congrArg (· - 1) counts.depth, counts.base, counts.limit⟩
  | error interrupt later =>
      rw [ends] at counts
      cases interrupt with
      | fault | exhausted =>
          exact ⟨congrArg (EStateM.Result.error _) (left later counts.depth),
            congrArg (· - 1) counts.depth, counts.base, counts.limit⟩

/-- A function is called in the same way as long as there is room, if it is when there is
no room left. -/
theorem callFound
    {steps other : Steps}
    (call : ∀ callable arguments,
      Raised calls spare (steps.call callable arguments) (other.call callable arguments))
    (wider : calls ≤ spare)
    (paren : Token)
    (full : ∀ (machine : Machine) callable (arguments : Array Value),
      machine.depth = machine.limit → arguments.size = callable.arity →
        other.callFound paren arguments (some callable) (machine.raised calls spare) =
          .error (.fault (Fault.atToken .callsTooDeep paren)) (machine.raised calls spare))
    (arguments : Array Value)
    (found : Option Callable) :
    Raised calls spare (steps.callFound paren arguments found)
      (other.callFound paren arguments found) := by
  intro machine room
  cases found with
  | none => exact fail .notCallable paren machine room
  | some callable =>
      by_cases arity : arguments.size = callable.arity
      · by_cases isFull : machine.limit ≤ machine.depth
        · rw [full machine callable arguments (Nat.le_antisymm room isFull) arity,
            Steps.callFound_some, if_neg (not_not.mpr arity), if_pos isFull]
          exact ⟨rfl, rfl, rfl, rfl⟩
        · have spares :
              ¬ (machine.raised calls spare).limit ≤ (machine.raised calls spare).depth := by
            change ¬ machine.limit + spare ≤ machine.depth + calls
            omega
          rw [Steps.callFound_some, Steps.callFound_some, if_neg (not_not.mpr arity),
            if_neg (not_not.mpr arity), if_neg isFull, if_neg spares]
          exact (call callable arguments.toList).callEnd paren (Nat.lt_of_not_le isFull)
      · rw [Steps.callFound_some, Steps.callFound_some, if_pos arity, if_pos arity]
        exact fail (.wrongArity callable.arity arguments.size) paren machine room

section Steps

variable {steps other : Steps} (raise : StepsRaised calls spare steps other)

include raise

/-! ## Statements and calls -/

theorem executeAll (ids : List (Option Tree.NodeId)) :
    Raised calls spare (steps.executeAll ids) (other.executeAll ids) := by
  induction ids with
  | nil => exact pure _
  | cons id others inductionHypothesis =>
      refine (raise.execute id).bind fun flow => ?_
      cases flow with
      | returning value => exact pure _
      | normal => exact inductionHypothesis

theorem executeBlock (outer : Scope) (bindings : List (String × Value)) (node : Tree.Node) :
    Raised calls spare (steps.executeBlock outer bindings node)
      (other.executeBlock outer bindings node) :=
  (newScope outer bindings).bind fun scope => (executeAll raise node.children).inScope scope

theorem executeLoop (node : Tree.Node) (rounds : Nat) :
    Raised calls spare (steps.executeLoop node rounds) (other.executeLoop node rounds) := by
  induction rounds with
  | zero => exact interrupted _
  | succ rounds inductionHypothesis =>
      refine (raise.evaluate _).bind fun condition => ?_
      split
      · refine (raise.execute _).bind fun flow => ?_
        cases flow with
        | returning value => exact pure _
        | normal => exact inductionHypothesis
      · exact pure _

/-- Whether there is a function to return from does not depend on the calls around. -/
theorem giveBack (node : Tree.Node) :
    Raised calls spare (steps.giveBack node) (other.giveBack node) := by
  refine get_bind fun machine => ?_
  have sameTest : (machine.raised calls spare).depth = (machine.raised calls spare).base ↔
      machine.depth = machine.base := Nat.add_right_cancel_iff
  simp only [sameTest]
  split
  · exact fail _ _
  · exact (raise.evaluate _).bind fun value => pure _

theorem executeNode (id : Option Tree.NodeId) :
    Raised calls spare (steps.executeNode id) (other.executeNode id) := by
  refine (node? id).bind fun found => ?_
  cases found with
  | none => exact pure _
  | some node =>
      dsimp only
      cases node.kind with
      | statements => exact executeAll raise _
      | declaration =>
          exact (raise.evaluate _).bind fun value =>
            (of_uncounted (.define _ value)).bind fun _ => pure _
      | echo =>
          exact (raise.evaluate _).bind fun value => (of_uncounted (.textOf value)).bind fun text =>
            (of_uncounted (.write _ _)).bind fun _ => pure _
      | discard => exact (raise.evaluate _).bind fun _ => pure _
      | block => exact get_bind fun machine => executeBlock raise machine.scope [] node
      | branch =>
          refine (raise.evaluate _).bind fun condition => ?_
          split <;> exact raise.execute _
      | loop =>
          rw [raise.rounds]
          exact executeLoop raise node steps.rounds
      | function => exact of_uncounted (.declareFunction node)
      | giveBack => exact giveBack raise node
      | _ => exact (raise.evaluate id).bind fun _ => pure _

theorem callFunction (declared : Function) (arguments : List Value) :
    Raised calls spare (steps.callFunction declared arguments)
      (other.callFunction declared arguments) := by
  refine (node? declared.body).bind fun found => ?_
  cases found with
  | none => exact pure _
  | some body =>
      refine (executeBlock raise _ _ body).bind fun flow => ?_
      cases flow <;> exact pure _

theorem programWith (source : String) :
    Raised calls spare (Run.programWith steps source) (Run.programWith other source) := by
  intro machine room
  obtain ⟨same, counts⟩ :=
    raise.execute (some (machine.readSource source).1.1) (machine.starting source) room
  rw [Run.programWith_eq, Run.programWith_eq]
  have started : (machine.raised calls spare).starting source =
      (machine.starting source).raised calls spare := rfl
  have root : ((machine.raised calls spare).readSource source).1.1 =
      (machine.readSource source).1.1 := rfl
  rw [started, root, same]
  cases ends : steps.execute (some (machine.readSource source).1.1) (machine.starting source) with
  | ok flow later =>
      rw [ends] at counts
      have flushed : Raised calls spare Run.flush Run.flush := of_uncounted .flush
      obtain ⟨sameFlush, flushCounts⟩ :=
        flushed { later with scope := machine.scope, base := machine.base } (counts.room room)
      exact ⟨sameFlush, ⟨flushCounts.depth.trans counts.depth, flushCounts.base,
        flushCounts.limit.trans counts.limit⟩⟩
  | error interrupt later =>
      rw [ends] at counts
      exact ⟨rfl, counts.depth, rfl, counts.limit⟩

theorem sourceWith (source : String) :
    Raised calls spare (Run.sourceWith steps source) (Run.sourceWith other source) := by
  intro machine room
  rw [Run.sourceWith_eq, Run.sourceWith_eq]
  have faults : ((machine.raised calls spare).readSource source).1.2 =
      (machine.readSource source).1.2 := rfl
  rw [faults]
  split
  · refine (programWith raise source).attempt.bind (fun outcome => ?_) machine room
    cases outcome <;> exact pure _
  · exact ⟨rfl, rfl, rfl, rfl⟩

theorem apply (target items : Value) :
    Raised calls spare (Builtin.apply steps target items) (Builtin.apply other target items) := by
  unfold Builtin.apply
  split
  next id items =>
      have found : Raised calls spare (Run.callableAt? id) (Run.callableAt? id) :=
        fun _ _ => ⟨rfl, rfl, rfl, rfl⟩
      refine found.bind fun found => ?_
      cases found with
      | none => exact pure _
      | some callable =>
          refine (of_uncounted (.elementsOf items)).bind fun arguments =>
            (raise.call callable _).attempt.bind fun outcome => ?_
          cases outcome <;> exact pure _
  next => exact pure _

theorem callCallable (callable : Callable) (arguments : List Value) :
    Raised calls spare (steps.callCallable callable arguments)
      (other.callCallable callable arguments) := by
  cases callable with
  | function declared => exact callFunction raise declared arguments
  | builtin given =>
      exact (discipline calls spare).perform steps other (sourceWith raise) (apply raise) given
        arguments

/-! ## Expressions -/

theorem evaluateAll (ids : List (Option Tree.NodeId)) (values : Array Value) :
    Raised calls spare (steps.evaluateAll ids values) (other.evaluateAll ids values) := by
  induction ids generalizing values with
  | nil => exact pure _
  | cons id others inductionHypothesis =>
      exact (raise.evaluate id).bind fun value => inductionHypothesis _

theorem callValue (paren : Token) (target : Value) (arguments : Array Value) :
    Raised calls spare (steps.callValue paren target arguments)
      (other.callValue paren target arguments) := by
  rw [Steps.callValue_eq, Steps.callValue_eq]
  have found (id : CallableId) : Raised calls spare (Run.callableAt? id) (Run.callableAt? id) :=
    fun _ _ => ⟨rfl, rfl, rfl, rfl⟩
  cases target with
  | callable id => exact (found id).bind fun found => raise.callFound paren arguments found
  | _ => exact raise.callFound paren arguments none

theorem logical (node : Tree.Node) :
    Raised calls spare (steps.logical node) (other.logical node) := by
  refine (raise.evaluate _).bind fun left => ?_
  split
  all_goals
    dsimp only
    split
    · exact pure _
    · exact raise.evaluate _

theorem evaluateNode (id : Option Tree.NodeId) :
    Raised calls spare (steps.evaluateNode id) (other.evaluateNode id) := by
  refine (node? id).bind fun found => ?_
  cases found with
  | none => exact pure _
  | some node =>
      dsimp only
      cases node.kind with
      | constant => exact pure _
      | group => exact raise.evaluate _
      | «variable» => exact of_uncounted (.valueOf _)
      | assignment =>
          exact (raise.evaluate _).bind fun value =>
            (of_uncounted (.assign _ value)).bind fun _ => pure _
      | logical => exact logical raise node
      | unary => exact (raise.evaluate _).bind fun value => of_uncounted (.unaryValue _ value)
      | binary =>
          exact (raise.evaluate _).bind fun left => (raise.evaluate _).bind fun right =>
            of_uncounted (.binaryValue _ left right)
      | call =>
          exact (raise.evaluate _).bind fun target => (evaluateAll raise _ _).bind fun arguments =>
            callValue raise _ target arguments
      | array =>
          exact (evaluateAll raise _ _).bind fun items => of_uncounted (.newArray items)
      | index =>
          exact (raise.evaluate _).bind fun target => (raise.evaluate _).bind fun position =>
            of_uncounted (.elementAt _ target position)
      | parameter => exact pure _
      | _ => exact (raise.execute id).bind fun _ => pure _

end Steps
end Raised

/-! ## Runs -/

/-- Where as many more calls may be active as are, a function is called in the same way, also
when there is no room left. -/
theorem StepsRaised.of_call
    {calls : Nat}
    {steps : Steps}
    (evaluate : ∀ id, Raised calls calls (steps.evaluate id) (steps.evaluate id))
    (execute : ∀ id, Raised calls calls (steps.execute id) (steps.execute id))
    (call : ∀ callable arguments,
      Raised calls calls (steps.call callable arguments) (steps.call callable arguments)) :
    StepsRaised calls calls steps steps where
  rounds := rfl
  evaluate := evaluate
  execute := execute
  call := call
  callFound paren := by
    refine Raised.callFound call (Nat.le_refl calls) paren
      fun machine callable arguments full arity => ?_
    have noRoom : (machine.raised calls calls).limit ≤ (machine.raised calls calls).depth :=
      Nat.add_le_add_right (Nat.le_of_eq full.symm) calls
    rw [Steps.callFound_some, if_neg (not_not.mpr arity), if_pos noRoom]
    rfl

/-- Within any bound, what is begun in the midst of more calls does what it would do without
them. -/
theorem StepsRaised.within (calls bound : Nat) :
    StepsRaised calls calls (Run.within bound) (Run.within bound) := by
  induction bound with
  | zero =>
      exact of_call (fun _ => .interrupted _) (fun _ => .interrupted _)
        fun _ _ => .interrupted _
  | succ bound inductionHypothesis =>
      rw [Run.within_succ]
      exact of_call (Raised.evaluateNode inductionHypothesis)
        (Raised.executeNode inductionHypothesis) (Raised.callCallable inductionHypothesis)

end Scripting
