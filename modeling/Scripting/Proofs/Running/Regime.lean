import Scripting.Proofs.Reading.Relocation
import Scripting.Proofs.Running.Discipline
import Scripting.Proofs.Running.Errands

/-!
# Regimes

A run changes its machine in small steps (`Machine.Step`), and for a while it works on a
machine that has been made of the one before: in a scope that has been opened, in one call
more, or at the top level of a program that has been read (`Machine.Visits`).  A `Regime`
says what holds of a machine, which nodes may be evaluated or executed and which functions
called, and how a machine may come after another.  When every small step keeps to it, and
every visit can be begun and ended, then every run keeps to it, begins nothing that does
not fit, and leaves a machine that may come after the one it began with.

Main statements: `Regime.Obeys.bind`, `Regime.Obeys.visit`.
-/

namespace Scripting

open Tree (Arena Node NodeKind)

variable {α β : Type}

/-! ## Nodes and the errands they lead to -/

/-- Whether a node of this kind is executed. The others are evaluated, but for a parameter,
which is neither. -/
def Tree.NodeKind.isStatement : NodeKind → Bool
  | .statements | .declaration | .echo | .discard | .block | .branch | .loop | .function
  | .giveBack => true
  | _ => false

/-- Whether a statement executes its child at a position. The others it evaluates. -/
def Tree.NodeKind.executesChild : NodeKind → (position : Nat) → Bool
  | .statements, _ | .block, _ => true
  | .branch, position | .loop, position => position != 0
  | _, _ => false

/-- The names of the parameters of a function. -/
def Tree.Arena.parameterNames (arena : Arena) (node : Node) : List String :=
  node.parameters.filterMap fun id => (arena.node? id).map Node.name

theorem Tree.Node.exists_child
    {node : Node}
    {id : Option Tree.NodeId}
    (member : id ∈ node.children) :
    ∃ position, node.child position = id := by
  obtain ⟨position, found⟩ := List.mem_iff_getElem?.mp member
  exact ⟨position, by rw [Node.child, found, Option.join_some]⟩

/-! ## Steps and visits -/

namespace Machine

/-- The nodes and the functions of the one machine are among those of the other, in the
same places. -/
structure Grows (machine later : Machine) : Prop where
  arena : machine.arena ≤ later.arena
  callables : machine.store.callables.toList <+: later.store.callables.toList

/-- The machine in a new scope inside another, in which names are bound. -/
def opening (machine : Machine) (outer : Scope) (bindings : List (String × Value)) : Machine :=
  let frame := machine.store.nextFrame
  { machine with
    store := bindings.foldl (fun store binding => store.bindIn frame binding.1 binding.2)
      machine.store.addFrame
    scope := outer.inside frame }

/-- The machine at the top level of a program that it has read. -/
def starting (machine : Machine) (source : String) : Machine :=
  { (machine.readSource source).2 with scope := Scope.global, base := machine.depth }

/-- One small change in the course of a run. -/
inductive Step : Machine → Machine → Prop
  | assign {machine : Machine} {name : String} {frame : FrameId} (value : Value) :
      machine.store.holder? machine.scope name = some frame →
        Step machine { machine with store := machine.store.bindIn frame name value }
  | define (machine : Machine) (name : String) (value : Value) :
      Step machine
        { machine with store := machine.store.bindIn machine.scope.frame name value }
  | addArray (machine : Machine) (items : Array Value) :
      Step machine { machine with store := machine.store.addArray items }
  | push (machine : Machine) (id : ArrayId) (value : Value) :
      Step machine { machine with store := machine.store.pushElement id value }
  | declare {machine : Machine} {id : Option Tree.NodeId} {node : Node} :
      machine.arena.node? id = some node → node.kind = .function →
        Step machine
          { machine with
            store := machine.store.addCallable (.function
              { name := node.name
                parameters := machine.arena.parameterNames node
                body := node.body
                closure := machine.scope }) }
  | ask {machine : Machine} {host : Host} :
      HostStep machine.host host → Step machine { machine with host := host }
  | read (machine : Machine) (source : String) : Step machine (machine.readSource source).2

/-- For a while a run works on the inner machine, and then goes back. A scope is opened
inside the current one or inside that of a function that may be called. -/
inductive Visits (calls : Machine → Callable → Prop) (machine : Machine) :
    (inner : Machine) → (back : Machine → Machine) → Prop
  | block (bindings : List (String × Value)) :
      Visits calls machine (machine.opening machine.scope bindings)
        fun later => { later with scope := machine.scope }
  | body {declared : Function} (bindings : List (String × Value)) :
      calls machine (.function declared) →
        Visits calls machine (machine.opening declared.closure bindings)
          fun later => { later with scope := machine.scope }
  | call :
      Visits calls machine { machine with depth := machine.depth + 1 }
        fun later => { later with depth := later.depth - 1 }
  | program (source : String) :
      Visits calls machine (machine.starting source)
        fun later => { later with scope := machine.scope, base := machine.base }

namespace Grows

variable {machine between later : Machine}

theorem refl (machine : Machine) : machine.Grows machine :=
  ⟨Arena.le_refl _, List.prefix_refl _⟩

theorem trans (first : machine.Grows between) (second : between.Grows later) :
    machine.Grows later :=
  ⟨Arena.le_trans first.arena second.arena, first.callables.trans second.callables⟩

/-- A function stays in its place. -/
theorem callable?_eq
    (grows : machine.Grows later)
    {id : CallableId}
    {callable : Callable}
    (found : machine.store.callable? id = some callable) :
    later.store.callable? id = some callable := by
  obtain ⟨added, whole⟩ := grows.callables
  rw [Store.callable?, ← Array.getElem?_toList] at found ⊢
  obtain ⟨inside, -⟩ := List.getElem?_eq_some_iff.mp found
  rw [← whole, List.getElem?_append_left inside, found]

/-- A function stays. -/
theorem exists_callable?
    {callable : Callable}
    (grows : machine.Grows later)
    (stored : ∃ place, machine.store.callable? place = some callable) :
    ∃ place, later.store.callable? place = some callable := by
  obtain ⟨place, found⟩ := stored
  exact ⟨place, grows.callable?_eq found⟩

theorem step (step : machine.Step later) : machine.Grows later := by
  cases step with
  | declare => exact ⟨Arena.le_refl _, by simp [Store.addCallable]⟩
  | read source => exact ⟨Tree.le_readProgram _ _, List.prefix_refl _⟩
  | _ => exact ⟨Arena.le_refl _, List.prefix_refl _⟩

end Grows

@[simp] theorem callables_opening
    (machine : Machine)
    (outer : Scope)
    (bindings : List (String × Value)) :
    (machine.opening outer bindings).store.callables = machine.store.callables :=
  Store.callables_foldl_bindIn _ _ _

namespace Visits

variable {calls : Machine → Callable → Prop} {machine inner later : Machine}
  {back : Machine → Machine}

theorem grows (visits : machine.Visits calls inner back) : machine.Grows inner := by
  cases visits with
  | block bindings => exact ⟨Arena.le_refl _, by simp⟩
  | body bindings called => exact ⟨Arena.le_refl _, by simp⟩
  | call => exact ⟨Arena.le_refl _, List.prefix_refl _⟩
  | program source => exact ⟨Tree.le_readProgram _ _, List.prefix_refl _⟩

theorem grows_back (visits : machine.Visits calls inner back) (after : inner.Grows later) :
    machine.Grows (back later) := by
  have whole := visits.grows.trans after
  cases visits <;> exact ⟨whole.arena, whole.callables⟩

theorem imp
    {other : Machine → Callable → Prop}
    (visits : machine.Visits calls inner back)
    (allows : ∀ machine callable, calls machine callable → other machine callable) :
    machine.Visits other inner back := by
  cases visits with
  | block bindings => exact .block bindings
  | body bindings called => exact .body bindings (allows _ _ called)
  | call => exact .call
  | program source => exact .program source

end Visits
end Machine

/-- What a run keeps to. -/
structure Regime where
  /-- What holds of every machine in the course of a run. -/
  holds : Machine → Prop
  /-- How a machine may come after another. -/
  leads : Machine → Machine → Prop
  /-- Which nodes may be evaluated. -/
  evaluates : Arena → Option Tree.NodeId → Prop
  /-- Which nodes may be executed. -/
  executes : Arena → Option Tree.NodeId → Prop
  /-- Which functions may be called. -/
  calls : Machine → Callable → Prop
  refl (machine : Machine) : leads machine machine
  trans {first second third : Machine} : leads first second → leads second third → leads first third
  evaluates_mono {arena later : Arena} {id : Option Tree.NodeId} :
    arena ≤ later → evaluates arena id → evaluates later id
  executes_mono {arena later : Arena} {id : Option Tree.NodeId} :
    arena ≤ later → executes arena id → executes later id
  calls_mono {machine later : Machine} {callable : Callable} :
    machine.Grows later → calls machine callable → calls later callable
  /-- An expression is evaluated by evaluating its children. -/
  operand {machine : Machine} {id : Option Tree.NodeId} {node : Node} :
    holds machine → evaluates machine.arena id → machine.arena.node? id = some node →
      node.kind.isStatement = false → ∀ position, evaluates machine.arena (node.child position)
  /-- A statement is evaluated by executing it. -/
  statement {machine : Machine} {id : Option Tree.NodeId} {node : Node} :
    holds machine → evaluates machine.arena id → machine.arena.node? id = some node →
      node.kind.isStatement = true → executes machine.arena id
  /-- A statement is executed by executing or evaluating its children. -/
  part {machine : Machine} {id : Option Tree.NodeId} {node : Node} :
    holds machine → executes machine.arena id → machine.arena.node? id = some node →
      node.kind.isStatement = true → node.kind ≠ .function → ∀ position,
        if node.kind.executesChild position = true then
          executes machine.arena (node.child position)
        else evaluates machine.arena (node.child position)
  /-- An expression is executed by evaluating it. -/
  expression {machine : Machine} {id : Option Tree.NodeId} {node : Node} :
    holds machine → executes machine.arena id → machine.arena.node? id = some node →
      node.kind.isStatement = false → evaluates machine.arena id
  /-- A function is called by executing what is in its body. -/
  body {machine : Machine} {declared : Function} {node : Node} :
    holds machine → calls machine (.function declared) →
      machine.arena.node? declared.body = some node →
        ∀ position, executes machine.arena (node.child position)
  /-- A program is run by executing its root. -/
  root {machine : Machine} (source : String) :
    holds machine →
      executes (machine.starting source).arena (some (machine.readSource source).1.1)
  /-- The functions of a machine may be called. -/
  found {machine : Machine} {id : CallableId} {callable : Callable} :
    holds machine → machine.store.callable? id = some callable → calls machine callable
  step {machine later : Machine} :
    holds machine → machine.Step later → holds later ∧ leads machine later
  enter {machine inner : Machine} {back : Machine → Machine} :
    holds machine → machine.Visits calls inner back → holds inner
  leave {machine inner later : Machine} {back : Machine → Machine} :
    holds machine → machine.Visits calls inner back → inner.Grows later → holds later →
      leads inner later → holds (back later) ∧ leads machine (back later)

namespace Regime

variable (regime : Regime)

/-- A run may leave the one machine as the other. -/
structure Reaches (machine later : Machine) : Prop where
  grows : machine.Grows later
  holds : regime.holds later
  leads : regime.leads machine later

/-- On the machine and on all that have grown out of it, the watched work does what the
work does, and keeps to the regime however it ends. -/
def Obeys (machine : Machine) (work watched : Run α) : Prop :=
  ∀ later, machine.Grows later → regime.holds later →
    watched later = work later ∧ regime.Reaches later (machineAfter (work later))

/-- The watched steps do what the steps do, as long as they are asked for nothing that does
not fit, and keep to the regime. -/
structure StepsObey (steps watched : Steps) : Prop where
  rounds : watched.rounds = steps.rounds
  evaluate {machine : Machine} {id : Option Tree.NodeId} :
    regime.evaluates machine.arena id →
      regime.Obeys machine (steps.evaluate id) (watched.evaluate id)
  execute {machine : Machine} {id : Option Tree.NodeId} :
    regime.executes machine.arena id →
      regime.Obeys machine (steps.execute id) (watched.execute id)
  call {machine : Machine} {callable : Callable} (arguments : List Value) :
    regime.calls machine callable →
      regime.Obeys machine (steps.call callable arguments) (watched.call callable arguments)

variable {regime}

namespace Reaches

variable {machine between later : Machine}

theorem refl (holds : regime.holds machine) : regime.Reaches machine machine :=
  ⟨.refl machine, holds, regime.refl machine⟩

theorem trans (first : regime.Reaches machine between) (second : regime.Reaches between later) :
    regime.Reaches machine later :=
  ⟨first.grows.trans second.grows, second.holds, regime.trans first.leads second.leads⟩

theorem step (holds : regime.holds machine) (step : machine.Step later) :
    regime.Reaches machine later :=
  let kept := regime.step holds step
  ⟨.step step, kept.1, kept.2⟩

end Reaches

namespace Obeys

variable {machine : Machine} {work watched : Run α}

/-! ## Work in general -/

theorem of_grows
    {later : Machine}
    (obeys : regime.Obeys machine work watched)
    (grows : machine.Grows later) :
    regime.Obeys later work watched :=
  fun last further => obeys last (grows.trans further)

/-- Work that is not watched and leaves the machine as it is. -/
theorem unmoved (same : ∀ machine, machineAfter (work machine) = machine) :
    regime.Obeys machine work work := by
  intro later _ holds
  rw [same]
  exact ⟨rfl, .refl holds⟩

theorem pure (value : α) : regime.Obeys machine (Pure.pure value) (Pure.pure value) :=
  unmoved fun _ => rfl

theorem interrupted (interrupt : Interrupt) :
    regime.Obeys machine (throw interrupt : Run α) (throw interrupt) :=
  unmoved fun _ => rfl

theorem fail (cause : Cause) (token : Token) :
    regime.Obeys machine (Run.fail cause token : Run α) (Run.fail cause token) :=
  unmoved fun _ => rfl

theorem bind
    {next watchedNext : α → Run β}
    (first : regime.Obeys machine work watched)
    (second : ∀ value, regime.Obeys machine (next value) (watchedNext value)) :
    regime.Obeys machine (work >>= next) (watched >>= watchedNext) := by
  intro later grows holds
  obtain ⟨same, reaches⟩ := first later grows holds
  cases ends : work later with
  | ok value between =>
      rw [ends] at same reaches
      rw [Run.bind_of_ok same, Run.bind_of_ok ends]
      obtain ⟨nextSame, nextReaches⟩ :=
        second value between (grows.trans reaches.grows) reaches.holds
      exact ⟨nextSame, reaches.trans nextReaches⟩
  | error interrupt between =>
      rw [ends] at same reaches
      rw [Run.bind_of_error same, Run.bind_of_error ends]
      exact ⟨rfl, reaches⟩

/-- What comes after a look at the machine may rely on what is seen. -/
theorem sight_bind
    (sight : Machine → α)
    {next watchedNext : α → Run β}
    (each : ∀ later, machine.Grows later → regime.holds later →
      regime.Obeys later (next (sight later)) (watchedNext (sight later))) :
    regime.Obeys machine ((fun machine => .ok (sight machine) machine : Run α) >>= next)
      ((fun machine => .ok (sight machine) machine : Run α) >>= watchedNext) :=
  fun later grows holds => each later grows holds later (.refl later) holds

theorem attempt (obeys : regime.Obeys machine work watched) :
    regime.Obeys machine (Run.attempt work) (Run.attempt watched) := by
  intro later grows holds
  obtain ⟨same, reaches⟩ := obeys later grows holds
  unfold Run.attempt
  rw [same]
  refine ⟨rfl, ?_⟩
  cases ends : work later with
  | ok value between => rwa [ends] at reaches
  | error interrupt between =>
      rw [ends] at reaches
      cases interrupt <;> exact reaches

/-- One small step. -/
theorem step
    (steps : ∀ later : Machine, machine.Grows later → later.Step (machineAfter (work later))) :
    regime.Obeys machine work work :=
  fun later grows holds => ⟨rfl, .step holds (steps later grows)⟩

/-- Work on an inner machine, however it is ended. -/
theorem visit
    {outer outerWatched : Run β}
    (visits : ∀ later : Machine, machine.Grows later → regime.holds later →
      ∃ inner back, ∃ work watched : Run α,
        ∃ finish : EStateM.Result Interrupt Machine α → EStateM.Result Interrupt Machine β,
        later.Visits regime.calls inner back ∧
        (machine.Grows inner → regime.Obeys inner work watched) ∧
        outer later = finish (work inner) ∧ outerWatched later = finish (watched inner) ∧
        ∀ result, machineAfter (finish result) = back (machineAfter result)) :
    regime.Obeys machine outer outerWatched := by
  intro later grows holds
  obtain ⟨inner, back, work, watched, finish, visit, obeys, outerEq, watchedEq, ended⟩ :=
    visits later grows holds
  obtain ⟨same, reaches⟩ :=
    obeys (grows.trans visit.grows) inner (.refl inner) (regime.enter holds visit)
  obtain ⟨backHolds, backLeads⟩ :=
    regime.leave holds visit reaches.grows reaches.holds reaches.leads
  rw [outerEq, watchedEq, same, ended]
  exact ⟨rfl, visit.grows_back reaches.grows, backHolds, backLeads⟩

end Obeys

/-! ## Two regimes at once -/

/-- What keeps to both of two regimes. -/
def both (first second : Regime) : Regime where
  holds machine := first.holds machine ∧ second.holds machine
  leads machine later := first.leads machine later ∧ second.leads machine later
  evaluates arena id := first.evaluates arena id ∧ second.evaluates arena id
  executes arena id := first.executes arena id ∧ second.executes arena id
  calls machine callable := first.calls machine callable ∧ second.calls machine callable
  refl machine := ⟨first.refl machine, second.refl machine⟩
  trans before after := ⟨first.trans before.1 after.1, second.trans before.2 after.2⟩
  evaluates_mono grows fit := ⟨first.evaluates_mono grows fit.1, second.evaluates_mono grows fit.2⟩
  executes_mono grows fit := ⟨first.executes_mono grows fit.1, second.executes_mono grows fit.2⟩
  calls_mono grows fit := ⟨first.calls_mono grows fit.1, second.calls_mono grows fit.2⟩
  operand holds fit found kind position :=
    ⟨first.operand holds.1 fit.1 found kind position,
      second.operand holds.2 fit.2 found kind position⟩
  statement holds fit found kind :=
    ⟨first.statement holds.1 fit.1 found kind, second.statement holds.2 fit.2 found kind⟩
  part holds fit found kind noFunction position := by
    have left := first.part holds.1 fit.1 found kind noFunction position
    have right := second.part holds.2 fit.2 found kind noFunction position
    split
    next executed =>
        rw [if_pos executed] at left right
        exact ⟨left, right⟩
    next evaluated =>
        rw [if_neg evaluated] at left right
        exact ⟨left, right⟩
  expression holds fit found kind :=
    ⟨first.expression holds.1 fit.1 found kind, second.expression holds.2 fit.2 found kind⟩
  body holds fit found position :=
    ⟨first.body holds.1 fit.1 found position, second.body holds.2 fit.2 found position⟩
  root source holds := ⟨first.root source holds.1, second.root source holds.2⟩
  found holds stored := ⟨first.found holds.1 stored, second.found holds.2 stored⟩
  step holds step :=
    let left := first.step holds.1 step
    let right := second.step holds.2 step
    ⟨⟨left.1, right.1⟩, left.2, right.2⟩
  enter holds visits :=
    ⟨first.enter holds.1 (visits.imp fun _ _ fit => fit.1),
      second.enter holds.2 (visits.imp fun _ _ fit => fit.2)⟩
  leave holds visits grows after leads :=
    let left := first.leave holds.1 (visits.imp fun _ _ fit => fit.1) grows after.1 leads.1
    let right := second.leave holds.2 (visits.imp fun _ _ fit => fit.2) grows after.2 leads.2
    ⟨⟨left.1, right.1⟩, left.2, right.2⟩

end Regime
end Scripting
