import Scripting.Store
import Scripting.Value.Text
import Scripting.Host
import Scripting.Fault
import Scripting.Token.Scan
import Scripting.Tree.Grammar

/-!
# The machine

The state in which programs run, and the steps of which running consists.  A step
changes the machine and ends with a value or is interrupted: by a fault of the
program, or because the bound on the work of a run is used up, which says nothing
about the program.

Three things are changed for a while and then restored, whatever happens in
between: the current scope, the number of active calls, and the number of calls
below which there is no function to return from.
-/

namespace Scripting

/-- The state in which programs run. -/
structure Machine where
  /-- The nodes of all programs that have been read. -/
  arena : Tree.Arena
  store : Store
  /-- The scope in which names are looked up. -/
  scope : Scope
  /-- How many calls are active. -/
  depth : Nat
  /-- How many calls were active when the running program was started. -/
  base : Nat
  /-- How many calls may be active at once. -/
  limit : Nat
  /-- The directories in which programs to include are looked for. -/
  libraries : List String
  host : Host

namespace Machine

/-- Reads a source into the arena; gives the root of its tree and all faults found. -/
def readSource (machine : Machine) (source : String) : (Tree.NodeId × List Fault) × Machine :=
  let scan := Token.Scan.ofSource source
  let program := Tree.readProgram scan.sequence machine.arena
  let faults := (scan.faults.toList ++ program.faults).map (·.withSource source)
  ((program.root, faults), { machine with arena := program.arena })

end Machine

/-- Why a run ends early. -/
inductive Interrupt where
  | fault (fault : Fault)
  /-- The bound on the work of a run is used up. -/
  | exhausted
  deriving Inhabited

/-- Work that changes a machine and may be interrupted. -/
abbrev Run (α : Type) := EStateM Interrupt Machine α

/-- How a statement ends. -/
inductive Flow where
  | normal
  /-- A function gives back a value. -/
  | returning (value : Value)
  deriving Inhabited

/-- The ways in which one step goes on to the next. -/
structure Steps where
  /-- How often a loop may go round. -/
  rounds : Nat
  evaluate : Option Tree.NodeId → Run Value
  execute : Option Tree.NodeId → Run Flow
  /-- Calls a function without looking at the number of its arguments. -/
  call : Callable → List Value → Run Value

/-- How many calls may be active at once, unless something else is asked for. -/
def defaultLimit : Nat := 10000

namespace Run

/-- What comes after work that has succeeded. -/
theorem bind_of_ok
    {α β : Type}
    {work : Run α}
    {next : α → Run β}
    {machine after : Machine}
    {value : α}
    (ends : work machine = .ok value after) :
    (work >>= next) machine = next value after := by
  simp only [Bind.bind, EStateM.bind, ends]

/-- Nothing comes after work that has been interrupted. -/
theorem bind_of_error
    {α β : Type}
    {work : Run α}
    {next : α → Run β}
    {machine after : Machine}
    {interrupt : Interrupt}
    (ends : work machine = .error interrupt after) :
    (work >>= next) machine = .error interrupt after := by
  simp only [Bind.bind, EStateM.bind, ends]

/-- Ends a run with a fault. -/
def failing {α : Type} (fault : Fault) : Run α :=
  throw (.fault fault)

/-- Ends a run with a fault that is blamed on a token. -/
def fail {α : Type} (cause : Cause) (token : Token) : Run α :=
  failing (Fault.atToken cause token)

/-- Work whose fault is a value. That the bound is used up is none. -/
def attempt {α : Type} (work : Run α) : Run (Except Fault α) := fun machine =>
  match work machine with
  | .ok value machine => .ok (.ok value) machine
  | .error (.fault fault) machine => .ok (.error fault) machine
  | .error .exhausted machine => .error .exhausted machine

/-- Work in another scope. -/
def inScope {α : Type} (scope : Scope) (work : Run α) : Run α := fun machine =>
  let previous := machine.scope
  match work { machine with scope := scope } with
  | .ok value machine => .ok value { machine with scope := previous }
  | .error interrupt machine => .error interrupt { machine with scope := previous }

/-- Work in one call more; a fault without a place is blamed on the given token. The
calls are counted up before the work, and down from what the work leaves. -/
def inCall {α : Type} (token : Token) (work : Run α) : Run α := fun machine =>
  match work { machine with depth := machine.depth + 1 } with
  | .ok value machine => .ok value { machine with depth := machine.depth - 1 }
  | .error (.fault fault) machine =>
      .error (.fault (fault.orAt token)) { machine with depth := machine.depth - 1 }
  | .error .exhausted machine => .error .exhausted { machine with depth := machine.depth - 1 }

/-- Work at the top level of a program: in the global scope, and with no function to
return from. -/
def atTopLevel {α : Type} (work : Run α) : Run α := fun machine =>
  let scope := machine.scope
  let base := machine.base
  match work { machine with scope := Scope.global, base := machine.depth } with
  | .ok value machine => .ok value { machine with scope := scope, base := base }
  | .error interrupt machine => .error interrupt { machine with scope := scope, base := base }

/-- The node at an index that may be absent. -/
def node? (id : Option Tree.NodeId) : Run (Option Tree.Node) := fun machine =>
  .ok (machine.arena.node? id) machine

/-- The text of a value. -/
def textOf (value : Value) : Run String := fun machine =>
  .ok (machine.store.text value) machine

/-- The elements of an array. -/
def elementsOf (id : ArrayId) : Run (Array Value) := fun machine =>
  .ok (machine.store.elements id) machine

/-- The function at a place. -/
def callableAt? (id : CallableId) : Run (Option Callable) := fun machine =>
  .ok (machine.store.callable? id) machine

/-- Changes the store. -/
def changeStore (change : Store → Store) : Run Unit := fun machine =>
  .ok () { machine with store := change machine.store }

/-- The value of a name. -/
def valueOf (name : Token) : Run Value := fun machine =>
  match machine.store.get machine.scope name with
  | .ok value => .ok value machine
  | .error fault => .error (.fault fault) machine

/-- Changes the value of a name. -/
def assign (name : Token) (value : Value) : Run Unit := fun machine =>
  match machine.store.holder? machine.scope name.lexeme with
  | some frame =>
      .ok () { machine with store := machine.store.bindIn frame name.lexeme value }
  | none => .error (.fault (Store.unbound name)) machine

/-- An assignment on the machine is one in its store. -/
theorem assign_eq (name : Token) (value : Value) (machine : Machine) :
    assign name value machine =
      match machine.store.assign machine.scope name value with
      | .ok store => .ok () { machine with store := store }
      | .error fault => .error (.fault fault) machine := by
  unfold assign Store.assign
  cases machine.store.holder? machine.scope name.lexeme <;> rfl

/-- Binds a name in the current scope. -/
def define (name : String) (value : Value) : Run Unit := fun machine =>
  let frame := machine.scope.frame
  .ok () { machine with store := machine.store.bindIn frame name value }

/-- A new scope inside another, in which the given names are bound to the given
values. -/
def newScope (outer : Scope) (bindings : List (String × Value)) : Run Scope := fun machine =>
  let frame := machine.store.nextFrame
  .ok (outer.inside frame)
    { machine with
      store := bindings.foldl
        (fun store binding => store.bindIn frame binding.1 binding.2)
        machine.store.addFrame }

/-- A new array. -/
def newArray (items : Array Value) : Run Value := fun machine =>
  let id := machine.store.nextArray
  .ok (.array id) { machine with store := machine.store.addArray items }

/-- A new function. -/
def newCallable (callable : Callable) : Run Value := fun machine =>
  let id := machine.store.nextCallable
  .ok (.callable id) { machine with store := machine.store.addCallable callable }

/-- Writes a text, on behalf of a token. -/
def write (text : String) (token : Token) : Run Unit := fun machine =>
  match machine.host.sink with
  | .refusingText reason =>
      .error (.fault (Fault.atToken (.transfer ("cannot write output: " ++ reason)) token)) machine
  | _ => .ok () { machine with host := machine.host.append text }

/-- Passes on what has been written. -/
def flush : Run Unit := fun machine =>
  match machine.host.flush with
  | .ok () => .ok () machine
  | .error reason =>
      let cause := Cause.transfer ("cannot write output: " ++ reason)
      .error (.fault (Fault.ofCause cause none)) machine

/-- Reads a source into the arena; gives the root of its tree and all faults found. -/
def readSource (source : String) : Run (Tree.NodeId × List Fault) := fun machine =>
  let (found, machine) := machine.readSource source
  .ok found machine

/-- Executes a program that has been read, and then passes on its output. -/
def interpretWith (steps : Steps) (root : Tree.NodeId) : Run Unit := do
  let _ ← atTopLevel (steps.execute (some root))
  flush

/-- Reads a source and, if it has no faults, executes it; gives the faults found. -/
def sourceWith (steps : Steps) (source : String) : Run (List Fault) := do
  let (root, faults) ← readSource source
  if !faults.isEmpty then return faults
  else match ← attempt (interpretWith steps root) with
    | .ok () => return []
    | .error fault => return [fault.withSource source]

end Run
end Scripting
