import Scripting.Proofs.Running.Course

/-!
# Calls ignore where they are made

A call of a function installs a scope inside the one of its declaration before it reads
anything, an included program is run in the global scope, and no other built-in function
looks at a scope.  So two calls on machines that differ in nothing but the current scope
end in the same way, with the same store, the same nodes and the same surroundings, and
each of them leaves its own scope as it was.

`IgnoresScope work` says of a part of a run that it does the same in every scope.

Main statement: `calls_elsewhere`.
-/

namespace Scripting

variable {α β : Type}

/-- In another scope the work does the same, and it stays in that scope. -/
def IgnoresScope (work : Run α) : Prop :=
  ∀ (machine : Machine) (scope : Scope),
    work { machine with scope := scope } = resultIn scope (work machine)

namespace IgnoresScope

/-! ## Work in general -/

section Work

variable {work : Run α}

theorem pure (value : α) : IgnoresScope (Pure.pure value : Run α) :=
  fun _ _ => rfl

theorem interrupted (interrupt : Interrupt) : IgnoresScope (throw interrupt : Run α) :=
  fun _ _ => rfl

theorem bind
    {next : α → Run β}
    (first : IgnoresScope work)
    (second : ∀ value, IgnoresScope (next value)) :
    IgnoresScope (work >>= next) := by
  intro machine scope
  have same := first machine scope
  cases equation : work machine with
  | ok value between =>
      rw [equation] at same
      rw [Run.bind_of_ok same, Run.bind_of_ok equation]
      exact second value between scope
  | error interrupt between =>
      rw [equation] at same
      rw [Run.bind_of_error same, Run.bind_of_error equation]
      rfl

/-- What is read off the machine is something else than its scope. -/
theorem get_bind
    {next : Machine → Run α}
    (same : ∀ machine scope, next { machine with scope := scope } = next machine)
    (each : ∀ machine, IgnoresScope (next machine)) :
    IgnoresScope (get >>= next) := by
  intro machine scope
  change next { machine with scope := scope } { machine with scope := scope } = _
  rw [same machine scope]
  exact each machine machine scope

theorem attempt (ignores : IgnoresScope work) : IgnoresScope (Run.attempt work) := by
  intro machine scope
  have same := ignores machine scope
  unfold Run.attempt
  cases equation : work machine with
  | ok value between =>
      rw [equation] at same
      simp only [same, resultIn]
  | error interrupt between =>
      rw [equation] at same
      cases interrupt <;> simp only [same, resultIn]

/-- Work in a scope of its own ignores the one that it is put into. -/
theorem inScope (inner : Scope) (work : Run α) : IgnoresScope (Run.inScope inner work) := by
  intro machine scope
  unfold Run.inScope
  dsimp only
  cases work { machine with scope := inner } <;> rfl

theorem atTopLevel (work : Run α) : IgnoresScope (Run.atTopLevel work) := by
  intro machine scope
  unfold Run.atTopLevel
  dsimp only
  cases work { machine with scope := Scope.global, base := machine.depth } <;> rfl

theorem inCall (token : Token) (ignores : IgnoresScope work) :
    IgnoresScope (Run.inCall token work) := by
  intro machine scope
  have same := ignores { machine with depth := machine.depth + 1 } scope
  unfold Run.inCall
  dsimp only at same ⊢
  rw [same]
  cases work { machine with depth := machine.depth + 1 } with
  | ok value between => rfl
  | error interrupt between => cases interrupt <;> rfl

end Work

/-! ## The steps of a machine -/

theorem node? (id : Option Tree.NodeId) : IgnoresScope (Run.node? id) :=
  fun _ _ => rfl

theorem elementsOf (id : ArrayId) : IgnoresScope (Run.elementsOf id) :=
  fun _ _ => rfl

theorem callableAt? (id : CallableId) : IgnoresScope (Run.callableAt? id) :=
  fun _ _ => rfl

theorem newScope (outer : Scope) (bindings : List (String × Value)) :
    IgnoresScope (Run.newScope outer bindings) :=
  fun _ _ => rfl

theorem readSource (source : String) : IgnoresScope (Run.readSource source) :=
  fun _ _ => rfl

theorem flush : IgnoresScope Run.flush := by
  intro machine scope
  unfold Run.flush
  dsimp only
  cases machine.host.flush <;> rfl

/-- To ignore the scope is a discipline. -/
def discipline : Discipline where
  relates work _ := IgnoresScope work
  pure := pure
  interrupted := interrupted
  bind := bind
  look _ := fun _ _ => rfl
  ask _ _ := fun _ _ => rfl
  newArray _ := fun _ _ => rfl
  push _ _ := fun _ _ => rfl

theorem interpretWith (steps : Steps) (root : Tree.NodeId) :
    IgnoresScope (Run.interpretWith steps root) :=
  (atTopLevel (steps.execute (some root))).bind fun _ => flush

theorem sourceWith (steps : Steps) (source : String) :
    IgnoresScope (Run.sourceWith steps source) := by
  apply (readSource source).bind
  intro found
  obtain ⟨root, faults⟩ := found
  dsimp only
  split
  · exact pure _
  · apply (interpretWith steps root).attempt.bind
    intro outcome
    cases outcome <;> exact pure _

/-! ## Calls -/

section Calls

variable
  {steps : Steps}
  (ignore : ∀ callable arguments, IgnoresScope (steps.call callable arguments))

include ignore

theorem apply (target items : Value) : IgnoresScope (Builtin.apply steps target items) := by
  unfold Builtin.apply
  split
  next id items =>
      apply (callableAt? id).bind
      intro found
      cases found with
      | none => exact pure _
      | some callable =>
          refine (elementsOf items).bind fun arguments =>
            (attempt (ignore callable _)).bind fun outcome => ?_
          cases outcome <;> exact pure _
  next => exact pure _

theorem perform (builtin : Builtin) (arguments : List Value) :
    IgnoresScope (Builtin.perform steps builtin arguments) :=
  discipline.perform steps steps (sourceWith steps) (apply ignore) builtin arguments

omit ignore in
/-- The body of a function runs inside the scope of its declaration. -/
theorem callFunction (declared : Function) (arguments : List Value) :
    IgnoresScope (steps.callFunction declared arguments) := by
  apply (node? declared.body).bind
  intro found
  cases found with
  | none => exact pure _
  | some body =>
      refine ((newScope _ _).bind fun inner => inScope inner _).bind fun flow => ?_
      cases flow <;> exact pure _

theorem callCallable (callable : Callable) (arguments : List Value) :
    IgnoresScope (steps.callCallable callable arguments) := by
  cases callable with
  | function declared => exact callFunction declared arguments
  | builtin given => exact perform ignore given arguments

theorem callFound (paren : Token) (arguments : Array Value) (found : Option Callable) :
    IgnoresScope (steps.callFound paren arguments found) := by
  cases found with
  | none => exact interrupted _
  | some callable =>
      simp only [Steps.callFound]
      split
      · exact interrupted _
      · apply get_bind
        · intro machine scope
          rfl
        · intro machine
          split
          · exact interrupted _
          · exact inCall paren (ignore callable _)

theorem callValue (paren : Token) (target : Value) (arguments : Array Value) :
    IgnoresScope (steps.callValue paren target arguments) := by
  rw [Steps.callValue_eq]
  cases target with
  | callable id => exact (callableAt? id).bind fun found => callFound ignore _ _ found
  | _ => exact callFound ignore _ _ none

end Calls

/-- Within any bound, calls ignore the scope in which they are made. -/
theorem callWithin (bound : Nat) (callable : Callable) (arguments : List Value) :
    IgnoresScope (Run.callWithin bound callable arguments) := by
  induction bound generalizing callable arguments with
  | zero => exact interrupted _
  | succ bound inductionHypothesis =>
      intro machine scope
      simp only [Run.callWithin, atLevel_eq]
      exact callCallable inductionHypothesis callable arguments machine scope

end IgnoresScope

/-- On two machines that differ in nothing but the current scope, a call ends in the same
way and with the same machine, but for the scope, which each of them keeps. This is so of
every function and within any bound, whether the function is called straight away or
through a value, whose function and number of arguments are looked at first. -/
theorem calls_elsewhere
    (bound : Nat)
    (machine : Machine)
    (scope : Scope) :
    (∀ (callable : Callable) (arguments : List Value),
      Run.callWithin bound callable arguments { machine with scope := scope } =
        resultIn scope (Run.callWithin bound callable arguments machine)) ∧
    ∀ (paren : Token) (target : Value) (arguments : Array Value),
      (Run.within bound).callValue paren target arguments { machine with scope := scope } =
        resultIn scope ((Run.within bound).callValue paren target arguments machine) := by
  have ignore := IgnoresScope.callWithin bound
  exact ⟨fun callable arguments => ignore callable arguments machine scope,
    fun paren target arguments =>
      IgnoresScope.callValue ignore paren target arguments machine scope⟩

end Scripting
