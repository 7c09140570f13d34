import Scripting.Evaluation

/-!
# Disciplines

A `Discipline` relates one run to another and is respected by the parts of which the calls
of built-in functions consist: it survives when works are done one after the other, and
it relates to itself whatever only looks at the store, adds to it, or asks the host for
something.  Two built-in functions go on with steps of the machine, the one that runs a file
and the one that applies a function; when the discipline relates these, it relates the
calls of all built-in functions (`Discipline.perform`).

A property of single works is a discipline that looks at the first work only.
-/

namespace Scripting

variable {α β : Type}

/-- The machine that work leaves, however it ends. -/
def machineAfter : EStateM.Result Interrupt Machine α → Machine
  | .ok _ machine => machine
  | .error _ machine => machine

/-- The same end, with the machine that is left put into a scope. -/
def resultIn (scope : Scope) :
    EStateM.Result Interrupt Machine α → EStateM.Result Interrupt Machine α
  | .ok value machine => .ok value { machine with scope := scope }
  | .error interrupt machine => .error interrupt { machine with scope := scope }

/-- What is left of a program after its statements: the scope and the base of before are
restored, and the output is passed on. -/
def Run.leave (scope : Scope) (base : Nat) :
    EStateM.Result Interrupt Machine Flow → EStateM.Result Interrupt Machine Unit
  | .ok _ machine => flush { machine with scope := scope, base := base }
  | .error interrupt machine => .error interrupt { machine with scope := scope, base := base }

theorem Run.interpretWith_eq (steps : Steps) (root : Tree.NodeId) (machine : Machine) :
    interpretWith steps root machine =
      leave machine.scope machine.base (steps.execute (some root)
        { machine with scope := Scope.global, base := machine.depth }) := by
  simp only [interpretWith, Bind.bind, EStateM.bind, atTopLevel]
  cases steps.execute (some root) { machine with scope := Scope.global, base := machine.depth } <;>
    rfl

/-- Calls what was found in the place of a function. -/
def Steps.callFound (steps : Steps) (paren : Token) (arguments : Array Value) :
    Option Callable → Run Value
  | none => Run.fail .notCallable paren
  | some callable =>
      if arguments.size ≠ callable.arity then
        Run.fail (.wrongArity callable.arity arguments.size) paren
      else do
        let machine ← get
        if machine.limit ≤ machine.depth then Run.fail .callsTooDeep paren
        else Run.inCall paren (steps.call callable arguments.toList)

theorem Steps.callValue_eq
    (steps : Steps)
    (paren : Token)
    (target : Value)
    (arguments : Array Value) :
    steps.callValue paren target arguments =
      match target with
      | .callable id => Run.callableAt? id >>= steps.callFound paren arguments
      | _ => steps.callFound paren arguments none := by
  cases target <;> rfl

/-- One change of a store. -/
inductive StoreStep : Store → Store → Prop
  | bind (store : Store) (frame : FrameId) (name : String) (value : Value) :
      StoreStep store (store.bindIn frame name value)
  | addFrame (store : Store) : StoreStep store store.addFrame
  | addArray (store : Store) (items : Array Value) : StoreStep store (store.addArray items)
  | push (store : Store) (id : ArrayId) (value : Value) :
      StoreStep store (store.pushElement id value)
  | addCallable (store : Store) (callable : Callable) :
      StoreStep store (store.addCallable callable)

/-- One change of the surroundings. -/
inductive HostStep : Host → Host → Prop
  | write (host : Host) (text : String) : HostStep host (host.append text)
  | clock (host : Host) : HostStep host host.readClock.2
  | wish (host : Host) (wish : Wish) : HostStep host (host.wishing wish)
  | files (host : Host) (files : Files) : HostStep host { host with files := files }

namespace Run

/-- Looks at what no work of a call puts back: the store and the library directories. -/
def look (sight : Store → List String → α) : Run α := fun machine =>
  .ok (sight machine.store machine.libraries) machine

/-- Asks the host for something. -/
def ask (answer : Host → α × Host) : Run α := fun machine =>
  .ok (answer machine.host).1 { machine with host := (answer machine.host).2 }

end Run

/-- A relation of works that built-in functions respect. -/
structure Discipline where
  relates : {α : Type} → Run α → Run α → Prop
  pure {α : Type} (value : α) : relates (Pure.pure value : Run α) (Pure.pure value)
  interrupted {α : Type} (interrupt : Interrupt) :
    relates (throw interrupt : Run α) (throw interrupt)
  bind {α β : Type} {work other : Run α} {next otherNext : α → Run β} :
    relates work other → (∀ value, relates (next value) (otherNext value)) →
      relates (work >>= next) (other >>= otherNext)
  look {α : Type} (sight : Store → List String → α) : relates (Run.look sight) (Run.look sight)
  ask {α : Type} (answer : Host → α × Host) :
    (∀ host, HostStep host (answer host).2) → relates (Run.ask answer) (Run.ask answer)
  newArray (items : Array Value) : relates (Run.newArray items) (Run.newArray items)
  push (id : ArrayId) (value : Value) :
    relates (Run.changeStore (·.pushElement id value)) (Run.changeStore (·.pushElement id value))

namespace Discipline

variable (discipline : Discipline)

theorem textOf (value : Value) : discipline.relates (Run.textOf value) (Run.textOf value) :=
  discipline.look fun store _ => store.text value

theorem elementsOf (id : ArrayId) :
    discipline.relates (Run.elementsOf id) (Run.elementsOf id) :=
  discipline.look fun store _ => store.elements id

theorem seekFiles (path : String) :
    discipline.relates (Builtin.seekFiles path) (Builtin.seekFiles path) :=
  discipline.ask (fun host => (host.files, host.wishing (.path path))) fun host => .wish host _

theorem readText (path : String) :
    discipline.relates (Builtin.readText path) (Builtin.readText path) := by
  apply discipline.bind (discipline.seekFiles path)
  intro files
  cases files.read path <;> exact discipline.pure _

theorem readFile (path : Value) :
    discipline.relates (Builtin.readFile path) (Builtin.readFile path) := by
  unfold Builtin.readFile
  cases Builtin.pathOf path with
  | error reason => exact discipline.pure _
  | ok path => exact discipline.bind (discipline.readText path) fun _ => discipline.pure _

theorem writeFile (path value : Value) :
    discipline.relates (Builtin.writeFile path value) (Builtin.writeFile path value) := by
  unfold Builtin.writeFile
  cases Builtin.pathOf path with
  | error reason => exact discipline.pure _
  | ok path =>
      refine discipline.bind (discipline.textOf value) fun text =>
        discipline.bind (discipline.seekFiles path) fun files => ?_
      cases files.write path text with
      | error problem => exact discipline.pure _
      | ok changed =>
          have changing := discipline.ask
            (fun host => (PUnit.unit, { host with files := changed }))
            fun host => .files host changed
          exact discipline.bind changing fun _ => discipline.pure _

theorem firstFile? (paths : List String) :
    discipline.relates (Builtin.firstFile? paths) (Builtin.firstFile? paths) := by
  induction paths with
  | nil => exact discipline.pure _
  | cons path others inductionHypothesis =>
      apply discipline.bind (discipline.seekFiles path)
      intro files
      split
      · exact discipline.pure _
      · exact inductionHypothesis

theorem programPath? (path : String) :
    discipline.relates (Builtin.programPath? path) (Builtin.programPath? path) := by
  have lookingFirst : Builtin.programPath? path =
      Run.look (fun _ libraries => libraries) >>= fun libraries =>
        if Path.isAbsolute path then Builtin.firstFile? [path]
        else Builtin.firstFile? (path :: libraries.map (Path.join · path)) := rfl
  rw [lookingFirst]
  apply discipline.bind (discipline.look _)
  intro libraries
  split <;> exact discipline.firstFile? _

variable (steps other : Steps)

/-- Running a file comes down to running the source in it. -/
theorem runFile
    (source : ∀ text,
      discipline.relates (Run.sourceWith steps text) (Run.sourceWith other text))
    (path : Value) :
    discipline.relates (Builtin.runFile steps path) (Builtin.runFile other path) := by
  unfold Builtin.runFile
  cases Builtin.pathOf path with
  | error reason => exact discipline.pure _
  | ok path =>
      apply discipline.bind (discipline.programPath? path)
      intro found
      cases found with
      | none => exact discipline.pure _
      | some found =>
          apply discipline.bind (discipline.readText found)
          intro text
          cases text with
          | error reason => exact discipline.pure _
          | ok text =>
              apply discipline.bind (source text)
              intro faults
              dsimp only
              split <;> exact discipline.pure _

section Calls

variable
  (source : ∀ text,
    discipline.relates (Run.sourceWith steps text) (Run.sourceWith other text))
  (apply : ∀ target items,
    discipline.relates (Builtin.apply steps target items) (Builtin.apply other target items))

include source apply

theorem answer (action : Action) (arguments : List Value) :
    discipline.relates (Builtin.answer steps action arguments)
      (Builtin.answer other action arguments) := by
  unfold Builtin.answer
  cases action with
  | clock =>
      exact discipline.ask
        (fun host => (Except.ok (Value.number host.readClock.1), host.readClock.2))
        fun host => .clock host
  | «variable» =>
      cases arguments.headD .null with
      | text name =>
          exact discipline.ask
            (fun host => (Except.ok (((host.valueOf? name).map Value.text).getD .null),
              host.wishing (.variable name))) fun host => .wish host _
      | _ => exact discipline.pure _
  | size =>
      cases arguments.headD .null with
      | array id => exact discipline.bind (discipline.elementsOf id) fun _ => discipline.pure _
      | _ => exact discipline.pure _
  | trim => exact discipline.pure _
  | split =>
      dsimp only
      unfold Builtin.split
      split <;> exact discipline.bind (discipline.newArray _) fun _ => discipline.pure _
  | push =>
      cases arguments.headD .null with
      | array id => exact discipline.bind (discipline.push id _) fun _ => discipline.pure _
      | _ => exact discipline.pure _
  | text => exact discipline.bind (discipline.textOf _) fun _ => discipline.pure _
  | typeName => exact discipline.pure _
  | readFile => exact discipline.readFile _
  | writeFile => exact discipline.writeFile _ _
  | runFile => exact discipline.runFile steps other source _
  | refuse => exact discipline.bind (discipline.textOf _) fun _ => discipline.pure _
  | apply => exact apply _ _

/-- The calls of built-in functions are related when those two are that go on with the steps
of the machine. -/
theorem perform (builtin : Builtin) (arguments : List Value) :
    discipline.relates (Builtin.perform steps builtin arguments)
      (Builtin.perform other builtin arguments) := by
  apply discipline.bind (discipline.answer steps other source apply builtin.action arguments)
  intro outcome
  cases outcome with
  | ok value => exact discipline.pure value
  | error reason => exact discipline.interrupted _

end Calls
end Discipline
end Scripting
