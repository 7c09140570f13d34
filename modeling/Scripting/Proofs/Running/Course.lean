import Scripting.Proofs.Running.Obedience

/-!
# The course of a run

A run changes its machine in small steps: it adds nodes, binds names, adds frames,
arrays, elements and functions, and asks its host for something.  A `Course` is a
preorder of machines that every one of these steps follows, and that survives when
work in another scope or in a call is left again.  A course is a regime in which anything
may be begun, so a run follows it from its beginning to its end, whether or not the run
succeeds.

Main statement: `Course.follows_within`.
-/

namespace Scripting

open Tree (Arena)

variable {α β : Type}

/-- How a machine may change in the course of a run. -/
structure Course where
  leads : Machine → Machine → Prop
  refl (machine : Machine) : leads machine machine
  trans {first second third : Machine} : leads first second → leads second third → leads first third
  reading {machine : Machine} {arena : Arena} :
    machine.arena ≤ arena → leads machine { machine with arena := arena }
  storing {machine : Machine} {store : Store} :
    StoreStep machine.store store → leads machine { machine with store := store }
  asking {machine : Machine} {host : Host} :
    HostStep machine.host host → leads machine { machine with host := host }
  /-- Work in another scope is left. -/
  leaving {machine later : Machine} {scope : Scope} :
    leads { machine with scope := scope } later →
      leads machine { later with scope := machine.scope }
  /-- A call is left. -/
  returning {machine later : Machine} :
    leads { machine with depth := machine.depth + 1 } later →
      leads machine { later with depth := later.depth - 1 }
  /-- The top level of a program is left. -/
  ending {machine later : Machine} :
    leads { machine with scope := Scope.global, base := machine.depth } later →
      leads machine { later with scope := machine.scope, base := machine.base }

/-- The work follows a course from every machine, however it ends. -/
def Course.Follows (course : Course) (work : Run α) : Prop :=
  ∀ machine, course.leads machine (machineAfter (work machine))

/-- The steps follow a course. -/
structure Course.StepsFollow (course : Course) (steps : Steps) : Prop where
  evaluate (id : Option Tree.NodeId) : course.Follows (steps.evaluate id)
  execute (id : Option Tree.NodeId) : course.Follows (steps.execute id)
  call (callable : Callable) (arguments : List Value) :
    course.Follows (steps.call callable arguments)

namespace Course.Follows

variable {course : Course}

/-! ## Work in general -/

section Work

variable {work : Run α}

theorem pure (value : α) : course.Follows (Pure.pure value) :=
  fun machine => course.refl machine

theorem fail (cause : Cause) (token : Token) : course.Follows (Run.fail cause token : Run α) :=
  fun machine => course.refl machine

theorem get : course.Follows (MonadState.get : Run Machine) :=
  fun machine => course.refl machine

theorem bind
    {next : α → Run β}
    (first : course.Follows work)
    (second : ∀ value, course.Follows (next value)) :
    course.Follows (work >>= next) := by
  intro machine
  have before := first machine
  cases equation : work machine with
  | ok value between =>
      rw [equation] at before
      rw [Run.bind_of_ok equation]
      exact course.trans before (second value between)
  | error interrupt between =>
      rw [equation] at before
      rw [Run.bind_of_error equation]
      exact before

theorem attempt (follows : course.Follows work) : course.Follows (Run.attempt work) := by
  intro machine
  have before := follows machine
  unfold Run.attempt
  cases equation : work machine with
  | ok value between =>
      rw [equation] at before
      exact before
  | error interrupt between =>
      rw [equation] at before
      cases interrupt <;> exact before

theorem inCall (token : Token) (follows : course.Follows work) :
    course.Follows (Run.inCall token work) := by
  intro machine
  have before := follows { machine with depth := machine.depth + 1 }
  unfold Run.inCall
  cases equation : work { machine with depth := machine.depth + 1 } with
  | ok value between =>
      rw [equation] at before
      exact course.returning before
  | error interrupt between =>
      rw [equation] at before
      cases interrupt <;> exact course.returning before

theorem atTopLevel (follows : course.Follows work) : course.Follows (Run.atTopLevel work) := by
  intro machine
  have before := follows { machine with scope := Scope.global, base := machine.depth }
  unfold Run.atTopLevel
  cases equation : work { machine with scope := Scope.global, base := machine.depth } with
  | ok value between =>
      rw [equation] at before
      exact course.ending before
  | error interrupt between =>
      rw [equation] at before
      exact course.ending before

end Work

/-! ## The steps of a machine -/

theorem node? (id : Option Tree.NodeId) : course.Follows (Run.node? id) :=
  fun machine => course.refl machine

theorem textOf (value : Value) : course.Follows (Run.textOf value) :=
  fun machine => course.refl machine

theorem callableAt? (id : CallableId) : course.Follows (Run.callableAt? id) :=
  fun machine => course.refl machine

theorem define (name : String) (value : Value) : course.Follows (Run.define name value) :=
  fun _ => course.storing (.bind _ _ _ _)

/-- Binding names one after the other follows a course. -/
theorem leads_foldl_bindIn
    (frame : FrameId)
    (bindings : List (String × Value))
    (machine : Machine) :
    course.leads machine
      { machine with
        store := bindings.foldl
          (fun store binding => store.bindIn frame binding.1 binding.2) machine.store } := by
  induction bindings generalizing machine with
  | nil => exact course.refl machine
  | cons binding rest inductionHypothesis =>
      exact course.trans (course.storing (.bind _ frame binding.1 binding.2))
        (inductionHypothesis { machine with
          store := machine.store.bindIn frame binding.1 binding.2 })

theorem newScope (outer : Scope) (bindings : List (String × Value)) :
    course.Follows (Run.newScope outer bindings) := fun machine =>
  course.trans (course.storing (.addFrame machine.store))
    (leads_foldl_bindIn machine.store.nextFrame bindings
      { machine with store := machine.store.addFrame })

theorem newCallable (callable : Callable) : course.Follows (Run.newCallable callable) :=
  fun _ => course.storing (.addCallable _ _)

theorem write (text : String) (token : Token) : course.Follows (Run.write text token) := by
  intro machine
  unfold Run.write
  split
  · exact course.refl machine
  · exact course.asking (.write _ _)

theorem flush : course.Follows Run.flush := by
  intro machine
  unfold Run.flush
  cases machine.host.flush <;> exact course.refl machine

theorem readSource (source : String) : course.Follows (Run.readSource source) :=
  fun machine => course.reading (Tree.le_readProgram _ machine.arena)

section Steps

variable {steps : Steps} (follows : course.StepsFollow steps)

include follows

theorem interpretWith (root : Tree.NodeId) : course.Follows (Run.interpretWith steps root) :=
  (atTopLevel (follows.execute (some root))).bind fun _ => flush

theorem sourceWith (source : String) : course.Follows (Run.sourceWith steps source) := by
  apply (readSource source).bind
  intro found
  obtain ⟨root, faults⟩ := found
  dsimp only
  split
  · exact pure _
  · apply (attempt (interpretWith follows _)).bind
    intro outcome
    cases outcome <;> exact pure _

theorem executeAll (ids : List (Option Tree.NodeId)) : course.Follows (steps.executeAll ids) := by
  induction ids with
  | nil => exact pure _
  | cons id rest inductionHypothesis =>
      apply (follows.execute id).bind
      intro flow
      cases flow with
      | returning value => exact pure _
      | normal => exact inductionHypothesis

theorem callFound (paren : Token) (arguments : Array Value) (found : Option Callable) :
    course.Follows (steps.callFound paren arguments found) := by
  cases found with
  | none => exact fail _ _
  | some callable =>
      simp only [Steps.callFound]
      split
      · exact fail _ _
      · apply get.bind
        intro machine
        split
        · exact fail _ _
        · exact inCall paren (follows.call callable _)

end Steps

end Course.Follows

namespace Course

/-- A course is a regime in which anything may be begun. -/
def regime (course : Course) : Regime where
  holds _ := True
  leads := course.leads
  evaluates _ _ := True
  executes _ _ := True
  calls _ _ := True
  refl := course.refl
  trans := course.trans
  evaluates_mono _ _ := trivial
  executes_mono _ _ := trivial
  calls_mono _ _ := trivial
  operand _ _ _ _ _ := trivial
  statement _ _ _ _ := trivial
  part _ _ _ _ _ _ := by split <;> trivial
  expression _ _ _ _ := trivial
  body _ _ _ _ := trivial
  root _ _ := trivial
  found _ _ := trivial
  step _ step := by
    refine ⟨trivial, ?_⟩
    cases step with
    | assign value => exact course.storing (.bind _ _ _ _)
    | define => exact course.storing (.bind _ _ _ _)
    | addArray => exact course.storing (.addArray _ _)
    | push => exact course.storing (.push _ _ _)
    | declare => exact course.storing (.addCallable _ _)
    | ask changes => exact course.asking changes
    | read source => exact course.reading (Tree.le_readProgram _ _)
  enter _ _ := trivial
  leave {machine inner later back} _ visits _ _ leads := by
    refine ⟨trivial, ?_⟩
    cases visits with
    | block bindings =>
        exact course.trans (Follows.newScope machine.scope bindings machine) (course.leaving leads)
    | @body declared bindings =>
        exact course.trans (Follows.newScope declared.closure bindings machine)
          (course.leaving leads)
    | call => exact course.returning leads
    | program source =>
        exact course.trans (Follows.readSource source machine) (course.ending leads)

/-- Every run follows every course, within any bound. -/
theorem follows_within (course : Course) (bound : Nat) :
    course.StepsFollow (Run.within bound) := by
  have obey : course.regime.StepsObey _ (Run.watched (fun _ _ => True) .exhausted bound) :=
    Regime.obeys_within (fun _ _ _ _ => trivial) .exhausted bound
  exact {
    evaluate := fun _ machine => (obey.evaluate trivial machine (.refl machine) trivial).2.leads
    execute := fun _ machine => (obey.execute trivial machine (.refl machine) trivial).2.leads
    call := fun _ arguments machine =>
      (obey.call arguments trivial machine (.refl machine) trivial).2.leads }

/-- Executing a program follows every course. -/
theorem follows_interpret (course : Course) (root : Tree.NodeId) :
    course.Follows (Run.interpret root) :=
  Follows.interpretWith (course.follows_within Run.ample) root

end Course
end Scripting
