import Scripting.Proofs.Running.Plans

/-!
# What leads to what

Which errands are begun for an errand, on which machine, how their faults are told, and to
which machine the work goes back (`Moment.Leads`).  An expression leads to its operands and
to calls, a statement to its parts, a function to the statements of its body in a scope of
its own, and a built-in function to the program that it runs, at a top level of its own.

Main statements: `Moment.Leads.fits`, `Moment.Leads.counts`.
-/

namespace Scripting

open Tree (Arena Node)

/-- The node that an errand is about. -/
def Errand.id? : Errand → Option Tree.NodeId
  | .evaluate id | .execute id => id
  | .call _ _ => none

/-- The node that is evaluated or executed. -/
def Moment.node? (moment : Moment) : Option Node :=
  moment.machine.arena.node? moment.errand.id?

/-- What the work gives back when a statement gives back a value. -/
def Errand.Gives : (errand : Errand) → Value → errand.Result → Prop
  | .execute _, value, flow => flow = .returning value
  | .call (.function _) _, value, result => result = value
  | _, _, _ => False

/-- The errand is to execute a loop. -/
def Moment.Loops (moment : Moment) : Prop :=
  ∃ id node, moment.errand = .execute id ∧ moment.machine.arena.node? id = some node ∧
    node.kind = .loop

/-- The work of an errand may fail by itself for its node, blaming the token of the node, or
because a built-in function refuses its task, which has no place. -/
inductive Moment.Fails (moment : Moment) : Fault → Prop
  | node {node : Node} {cause : Cause} :
      moment.node? = some node → node.Fails cause →
        Fails moment (Fault.atToken cause node.token)
  | refusal {given : Builtin} {arguments : List Value} (reason : String) :
      moment.errand = .call (.builtin given) arguments → Fails moment (given.refusal reason)

/-- The errand is to add an element to an array. -/
def Moment.Pushes (moment : Moment) : Prop :=
  ∃ given arguments, moment.errand = .call (.builtin given) arguments ∧ given.action = .push

/-- What the work of an errand may do by itself. -/
def Moment.manner (moment : Moment) : Manner where
  pushes := moment.Pushes
  tires := moment.Loops
  fails := moment.Fails

theorem Moment.blames
    {moment : Moment}
    {node : Node}
    (found : moment.node? = some node) :
    moment.manner.Blames node :=
  fun _ fails => .node found fails

namespace Link

/-- An errand that is begun on the machine as it is. -/
def plain (moment : Moment) : Link :=
  ⟨moment, id, id⟩

/-- A call, whose faults without a place are blamed on a token. -/
def ofCall
    (token : Token)
    (machine : Machine)
    (callable : Callable)
    (arguments : List Value) : Link where
  moment := ⟨.call callable arguments, { machine with depth := machine.depth + 1 }⟩
  tell fault := fault.orAt token
  back later := { later with depth := later.depth - 1 }

/-- The fault of a built-in function that has run a program with such faults. -/
def refusal (given : Builtin) (found : String) (faults : List Fault) : Fault :=
  given.refusal ("in '" ++ found ++ "':\n" ++ "\n".intercalate (faults.map Fault.text))

/-- The program in a file, whose fault a built-in function tells in its own. -/
def ofProgram (given : Builtin) (found source : String) (machine : Machine) : Link where
  moment := ⟨.execute (some (machine.readSource source).1.1), machine.starting source⟩
  tell fault := refusal given found [fault.withSource source]
  back later := { later with scope := machine.scope, base := machine.base }

end Link

/-- What is begun for an errand. -/
inductive Moment.Leads : Moment → Link → Prop
  /-- A child is evaluated. -/
  | operand {moment : Moment} {later : Machine} {node : Node} {position : Nat} :
      moment.node? = some node → moment.machine.Becomes later →
      Regime.standard.evaluates later.arena (node.child position) →
        Leads moment (.plain ⟨.evaluate (node.child position), later⟩)
  /-- A child is executed. -/
  | part {id : Option Tree.NodeId} {machine later : Machine} {node : Node} {position : Nat} :
      machine.arena.node? id = some node → machine.Becomes later →
      Regime.standard.executes later.arena (node.child position) →
        Leads ⟨.execute id, machine⟩ (.plain ⟨.execute (node.child position), later⟩)
  /-- A statement of a block is executed. -/
  | inner {id : Option Tree.NodeId} {machine later : Machine} {node : Node} {position : Nat} :
      machine.arena.node? id = some node → node.kind = .block →
      (machine.opening machine.scope []).Becomes later →
      Regime.standard.executes later.arena (node.child position) →
        Leads ⟨.execute id, machine⟩
          ((Link.plain ⟨.execute (node.child position), later⟩).inScope machine.scope)
  /-- A statement of the body of a function is executed. -/
  | body {declared : Function} {arguments : List Value} {machine later : Machine} {node : Node}
      {position : Nat} :
      machine.arena.node? declared.body = some node →
      (machine.opening declared.closure (declared.parameters.zip arguments)).Becomes later →
      Regime.standard.executes later.arena (node.child position) →
        Leads ⟨.call (.function declared) arguments, machine⟩
          ((Link.plain ⟨.execute (node.child position), later⟩).inScope machine.scope)
  /-- A function is called with as many arguments as it takes, when one call more may be
  active. -/
  | call {id : Option Tree.NodeId} {machine later : Machine} {node : Node} {callable : Callable}
      {arguments : List Value} :
      machine.arena.node? id = some node → node.kind = .call → machine.Becomes later →
      Regime.standard.calls later callable → arguments.length = callable.arity →
      later.depth < later.limit →
        Leads ⟨.evaluate id, machine⟩ (.ofCall node.token later callable arguments)
  /-- A program that has been read from a file is executed. -/
  | program {given : Builtin} {arguments : List Value} {machine later : Machine}
      (found source : String) :
      given.action = .runFile → machine.Becomes later →
        Leads ⟨.call (.builtin given) arguments, machine⟩ (.ofProgram given found source later)

/-- What is begun for an errand that may be begun, may be begun. -/
theorem Moment.Leads.fits
    {moment : Moment}
    {link : Link}
    (leads : moment.Leads link) :
    link.moment.Fits := by
  cases leads with
  | operand _ becomes fits => exact ⟨becomes.holds, fits⟩
  | part _ becomes fits => exact ⟨becomes.holds, fits⟩
  | inner _ _ becomes fits => exact ⟨becomes.holds, fits⟩
  | body _ becomes fits => exact ⟨becomes.holds, fits⟩
  | call _ _ becomes called => exact ⟨Regime.standard.enter becomes.holds .call, called⟩
  | program found source _ becomes =>
      exact ⟨Regime.standard.enter becomes.holds (.program source),
        Regime.standard.root source becomes.holds⟩

/-- How many calls are entered with the errand. -/
def Errand.entered : Errand → Nat
  | .call _ _ => 1
  | .evaluate _ | .execute _ => 0

/-- The machine, in the scope and with the counts of another one. -/
def Machine.restedAs (machine other : Machine) : Machine :=
  { machine with
    scope := other.scope
    depth := other.depth
    base := other.base
    limit := other.limit }

theorem Machine.Later.restedAs
    {machine later : Machine}
    (after : machine.Later later) :
    later.restedAs machine = later := by
  unfold Machine.restedAs
  rw [← after.scope, ← after.depth, ← after.base, ← after.limit]

namespace Moment.Leads

variable {moment : Moment} {link : Link}

theorem counts (leads : moment.Leads link) :
    link.moment.machine.depth = moment.machine.depth + link.moment.errand.entered ∧
      link.moment.machine.limit = moment.machine.limit := by
  cases leads with
  | operand _ becomes _ => exact ⟨becomes.isLater.depth, becomes.isLater.limit⟩
  | part _ becomes _ => exact ⟨becomes.isLater.depth, becomes.isLater.limit⟩
  | inner _ _ becomes _ => exact ⟨becomes.isLater.depth, becomes.isLater.limit⟩
  | body _ becomes _ => exact ⟨becomes.isLater.depth, becomes.isLater.limit⟩
  | call _ _ becomes _ _ _ =>
      exact ⟨congrArg (· + 1) becomes.isLater.depth, becomes.isLater.limit⟩
  | program _ _ _ becomes => exact ⟨becomes.isLater.depth, becomes.isLater.limit⟩

/-- Whatever is left of an errand, it goes back to the scope and the counts around it. -/
theorem back_restedAs (leads : moment.Leads link) (machine : Machine) :
    link.back (machine.restedAs link.moment.machine) = machine.restedAs moment.machine := by
  unfold Machine.restedAs
  cases leads with
  | operand _ becomes _ | part _ becomes _ | inner _ _ becomes _ | body _ becomes _
  | call _ _ becomes _ _ _ | program _ _ _ becomes =>
      have after := becomes.isLater
      simp [Link.plain, Link.inScope, Link.ofCall, Link.ofProgram, Machine.starting,
        Machine.opening, Machine.readSource, after.scope, after.depth, after.base, after.limit]

theorem back_host (leads : moment.Leads link) (machine : Machine) :
    (link.back machine).host = machine.host := by
  cases leads <;> rfl

theorem back_store (leads : moment.Leads link) (machine : Machine) :
    (link.back machine).store = machine.store := by
  cases leads <;> rfl

theorem back_arena (leads : moment.Leads link) (machine : Machine) :
    (link.back machine).arena = machine.arena := by
  cases leads <;> rfl

/-- Only a call enters a call. -/
theorem eq_ofCall
    (leads : moment.Leads link)
    (enters : link.moment.errand.entered ≠ 0) :
    ∃ id machine later node callable arguments,
      moment = ⟨.evaluate id, machine⟩ ∧ link = .ofCall node.token later callable arguments ∧
        machine.arena.node? id = some node ∧ node.kind = .call ∧ machine.Becomes later := by
  cases leads with
  | call found kind becomes _ _ _ => exact ⟨_, _, _, _, _, _, rfl, rfl, found, kind, becomes⟩
  | operand | part | inner | body | program => exact absurd rfl enters

end Moment.Leads

end Scripting
