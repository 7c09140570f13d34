import Scripting.Proofs.Running.Moments
import Scripting.Proofs.Running.Obedience
import Scripting.Proofs.Running.Reworded

/-!
# Work in other names

Names carry no meaning beyond which of them are the same: on a machine in other words work
does what it does on the machine, and leaves what it leaves in other words (`Renames`).  It
may be told apart only by what shows a name, or by what reads one: so functions keep the
names under which they are shown, and the one function that reads further programs is never
called.  It stays hidden under its name as long as no node says that name, since then its
value is never looked up, and a value that is nowhere can come from nowhere (`Guise.Fits`).

Main statements: `Guise.Renames.bind`, `Guise.Renames.valueOf`, `Guise.Renames.assign`.
-/

namespace Scripting

open Tree (Node)

variable {α β γ δ : Type}

/-- Whether a function neither runs a program nor calls a function by itself. -/
def Callable.IsQuiet : Callable → Prop
  | function _ => True
  | builtin given => given.action ≠ .runFile ∧ given.action ≠ .apply

/-- Other words for a program, in which different names stay different. One name is never
said by the program, and a function is hidden under it. -/
structure Guise where
  words : Rewording
  injective : Function.Injective words.spell
  unsaid : String
  hidden : CallableId

namespace Guise

variable (guise : Guise)

/-- The node does not say what is unsaid, and if it declares a function, the function keeps
its name. -/
structure Suits (node : Node) : Prop where
  unsaid : node.name ≠ guise.unsaid
  named : node.kind = .function → guise.words.spell node.name = node.name

/-- The value is not the hidden function. -/
def Admits : Value → Prop
  | .callable id => id ≠ guise.hidden
  | _ => True

/-- No hidden function is given back. -/
def AdmitsFlow : Flow → Prop
  | .normal => True
  | .returning value => guise.Admits value

/-- No hidden function is the answer. -/
def AdmitsAnswer : Builtin.Answer → Prop
  | .ok value => guise.Admits value
  | .error _ => True

/-- The hidden function is bound under no other name and is in no array, and the others are
quiet. -/
structure FitsStore (store : Store) : Prop where
  bound {frame : FrameId} {name : String} {value : Value} :
    (store.bindings frame).find? name = some value → name ≠ guise.unsaid → guise.Admits value
  element {id : ArrayId} {value : Value} : value ∈ store.elements id → guise.Admits value
  quiet {id : CallableId} {callable : Callable} :
    store.callable? id = some callable → id ≠ guise.hidden → callable.IsQuiet
  stored : guise.hidden < store.callables.size

/-- The nodes of the machine suit, and it hides what is hidden. -/
structure Fits (machine : Machine) : Prop where
  node {id : Tree.NodeId} {node : Node} : machine.arena.get? id = some node → guise.Suits node
  store : guise.FitsStore machine.store

variable {guise}

namespace FitsStore

variable {store : Store}

theorem bindIn
    (fits : guise.FitsStore store)
    (frame : FrameId)
    (name : String)
    {value : Value}
    (admitted : guise.Admits value) :
    guise.FitsStore (store.bindIn frame name value) where
  bound {other sought found} isBound said := by
    rw [Store.bindings_bindIn] at isBound
    split at isBound
    · by_cases same : sought = name
      · rw [same, Bindings.find?_bind_self] at isBound
        exact Option.some.inj isBound ▸ admitted
      · rw [Bindings.find?_bind_of_ne _ _ same] at isBound
        exact fits.bound isBound said
    · exact fits.bound isBound said
  element := fits.element
  quiet := fits.quiet
  stored := fits.stored

theorem foldl_bindIn
    (fits : guise.FitsStore store)
    (frame : FrameId)
    {bindings : List (String × Value)}
    (admitted : ∀ binding ∈ bindings, guise.Admits binding.2) :
    guise.FitsStore
      (bindings.foldl (fun store binding => store.bindIn frame binding.1 binding.2) store) := by
  induction bindings generalizing store with
  | nil => exact fits
  | cons binding rest inductionHypothesis =>
      rw [List.forall_mem_cons] at admitted
      exact inductionHypothesis (fits.bindIn frame binding.1 admitted.1) admitted.2

theorem addFrame (fits : guise.FitsStore store) : guise.FitsStore store.addFrame where
  bound isBound := fits.bound (store.bindings_addFrame _ ▸ isBound)
  element := fits.element
  quiet := fits.quiet
  stored := fits.stored

theorem addArray
    (fits : guise.FitsStore store)
    {items : Array Value}
    (admitted : ∀ value ∈ items, guise.Admits value) :
    guise.FitsStore (store.addArray items) where
  bound := fits.bound
  element {id value} member := by
    rw [Store.elements, Store.addArray, Array.getElem?_push] at member
    split at member
    · exact admitted value member
    · exact fits.element member
  quiet := fits.quiet
  stored := fits.stored

theorem pushElement
    (fits : guise.FitsStore store)
    (id : ArrayId)
    {value : Value}
    (admitted : guise.Admits value) :
    guise.FitsStore (store.pushElement id value) where
  bound := fits.bound
  element {other found} member := by
    rw [Store.elements, Store.pushElement, Array.getElem?_modify] at member
    split at member
    next same =>
      subst same
      cases present : store.arrays[id]? with
      | none => simp [present] at member
      | some items =>
          simp only [present, Option.map_some, Option.getD_some, Array.mem_push] at member
          obtain old | rfl := member
          · have stored : found ∈ store.elements id := by rwa [Store.elements, present]
            exact fits.element stored
          · exact admitted
    next => exact fits.element member
  quiet := fits.quiet
  stored := fits.stored

theorem addCallable
    (fits : guise.FitsStore store)
    {callable : Callable}
    (quiet : callable.IsQuiet) :
    guise.FitsStore (store.addCallable callable) where
  bound := fits.bound
  element := fits.element
  quiet present shown := by
    obtain old | rfl := Store.callable?_addCallable_cases present
    · exact fits.quiet old shown
    · exact quiet
  stored := by
    rw [Store.addCallable, Array.size_push]
    exact Nat.lt_succ_of_lt fits.stored

/-- What is looked up under another name is not hidden. -/
theorem admits_of_lookup
    (fits : guise.FitsStore store)
    {scope : Scope}
    {name : String}
    {value : Value}
    (found : store.lookup scope name = some value)
    (said : name ≠ guise.unsaid) :
    guise.Admits value := by
  obtain ⟨frame, -, isBound⟩ := List.exists_of_findSome?_eq_some found
  exact fits.bound isBound said

end FitsStore

/-! ## Work in general -/

variable (guise)

/-- The same end in other words. -/
def ending : Ending α → Ending α
  | .ok value later => .ok value (later.reworded guise.words)
  | .error interrupt later =>
      .error (interrupt.told (Fault.reworded guise.words)) (later.reworded guise.words)

/-- The end leaves a machine that fits, and a sound result if it leaves one. -/
def Leaves (sound : α → Prop) : Ending α → Prop
  | .ok value later => guise.Fits later ∧ sound value
  | .error _ later => guise.Fits later

/-- The other work does on a machine in other words what the work does on the machine, and
leaves what fits. -/
def Renames (sound : α → Prop) (work other : Run α) : Prop :=
  ∀ machine, guise.Fits machine →
    other (machine.reworded guise.words) = guise.ending (work machine) ∧
      guise.Leaves sound (work machine)

/-- The steps do in other words what they do. -/
structure StepsRename (steps : Steps) : Prop where
  evaluate (id : Option Tree.NodeId) :
    guise.Renames guise.Admits (steps.evaluate id) (steps.evaluate id)
  execute (id : Option Tree.NodeId) :
    guise.Renames guise.AdmitsFlow (steps.execute id) (steps.execute id)
  call {callable : Callable} {arguments : List Value} :
    callable.IsQuiet → (∀ value ∈ arguments, guise.Admits value) →
      guise.Renames guise.Admits (steps.call callable arguments)
        (steps.call (callable.reworded guise.words.spell) arguments)

variable {guise}

namespace Renames

variable {sound : α → Prop} {soundNext : β → Prop} {work other : Run α}

theorem pure {value : α} (isSound : sound value) :
    guise.Renames sound (Pure.pure value) (Pure.pure value) :=
  fun _ fits => ⟨rfl, fits, isSound⟩

theorem exhausted : guise.Renames sound (throw .exhausted) (throw .exhausted) :=
  fun _ fits => ⟨rfl, fits⟩

theorem failing (fault : Fault) :
    guise.Renames sound (Run.failing fault) (Run.failing (fault.reworded guise.words)) :=
  fun _ fits => ⟨rfl, fits⟩

/-- A fault without a name in its cause is blamed on a token. -/
theorem fail
    {cause : Cause}
    (nameless : cause.reworded guise.words = cause)
    (token : Token) :
    guise.Renames sound (Run.fail cause token) (Run.fail cause (token.reworded guise.words)) := by
  have same : guise.Renames sound (Run.fail cause token)
      (Run.failing ((Fault.atToken cause token).reworded guise.words)) :=
    failing (Fault.atToken cause token)
  rwa [Fault.atToken_reworded, nameless] at same

theorem bind
    {next otherNext : α → Run β}
    (first : guise.Renames sound work other)
    (second : ∀ value, sound value → guise.Renames soundNext (next value) (otherNext value)) :
    guise.Renames soundNext (work >>= next) (other >>= otherNext) := by
  intro machine fits
  obtain ⟨same, leaves⟩ := first machine fits
  cases ends : work machine with
  | ok value between =>
      rw [ends] at same leaves
      rw [Run.bind_of_ok same, Run.bind_of_ok ends]
      exact second value leaves.2 between leaves.1
  | error interrupt between =>
      rw [ends] at same leaves
      rw [Run.bind_of_error same, Run.bind_of_error ends]
      exact ⟨rfl, leaves⟩

/-- What comes after a look at the machine may rely on what is seen, and is seen in other
words. -/
theorem sight_bind
    (sight : Machine → γ)
    (otherSight : Machine → δ)
    {next : γ → Run α}
    {otherNext : δ → Run α}
    (each : ∀ machine, guise.Fits machine →
      guise.Renames sound (next (sight machine))
        (otherNext (otherSight (machine.reworded guise.words)))) :
    guise.Renames sound ((fun machine => .ok (sight machine) machine : Run γ) >>= next)
      ((fun machine => .ok (otherSight machine) machine : Run δ) >>= otherNext) :=
  fun machine fits => each machine fits machine fits

theorem get_bind
    {next otherNext : Machine → Run α}
    (each : ∀ machine, guise.Fits machine →
      guise.Renames sound (next machine) (otherNext (machine.reworded guise.words))) :
    guise.Renames sound (get >>= next) (get >>= otherNext) :=
  sight_bind id id each

theorem inScope (renames : guise.Renames sound work other) (scope : Scope) :
    guise.Renames sound (Run.inScope scope work) (Run.inScope scope other) := by
  intro machine fits
  obtain ⟨same, leaves⟩ := renames { machine with scope := scope } ⟨fits.node, fits.store⟩
  have entered : ({ machine.reworded guise.words with scope := scope } : Machine) =
      Machine.reworded guise.words { machine with scope := scope } := rfl
  unfold Run.inScope
  dsimp only
  rw [entered, same]
  cases ends : work { machine with scope := scope } with
  | ok value later =>
      rw [ends] at leaves
      exact ⟨rfl, ⟨leaves.1.node, leaves.1.store⟩, leaves.2⟩
  | error interrupt later =>
      rw [ends] at leaves
      exact ⟨rfl, leaves.node, leaves.store⟩

/-- A fault without a place is blamed on the token in other words. -/
theorem inCall (renames : guise.Renames sound work other) (token : Token) :
    guise.Renames sound (Run.inCall token work)
      (Run.inCall (token.reworded guise.words) other) := by
  intro machine fits
  obtain ⟨same, leaves⟩ :=
    renames { machine with depth := machine.depth + 1 } ⟨fits.node, fits.store⟩
  have entered : ({ machine.reworded guise.words with
        depth := (machine.reworded guise.words).depth + 1 } : Machine) =
      Machine.reworded guise.words { machine with depth := machine.depth + 1 } := rfl
  rw [Run.inCall_eq, Run.inCall_eq, entered, same]
  cases ends : work { machine with depth := machine.depth + 1 } with
  | ok value later =>
      rw [ends] at leaves
      exact ⟨rfl, ⟨leaves.1.node, leaves.1.store⟩, leaves.2⟩
  | error interrupt later =>
      rw [ends] at leaves
      refine ⟨?_, ?_⟩
      · cases interrupt with
        | fault fault =>
            simp only [ending, Interrupt.told, Run.callEnd, Fault.orAt_reworded]
            rfl
        | exhausted => rfl
      · cases interrupt <;> exact ⟨leaves.node, leaves.store⟩

/-! ## The steps of a machine -/

/-- What is done with a node may rely on its suiting. -/
theorem node?_bind
    (id : Option Tree.NodeId)
    {next otherNext : Option Node → Run α}
    (nothing : guise.Renames sound (next none) (otherNext none))
    (each : ∀ node, guise.Suits node →
      guise.Renames sound (next (some node)) (otherNext (some (node.reworded guise.words)))) :
    guise.Renames sound (Run.node? id >>= next) (Run.node? id >>= otherNext) := by
  refine sight_bind (·.arena.node? id) (·.arena.node? id) fun machine fits => ?_
  cases id with
  | none => exact nothing
  | some id =>
      change guise.Renames sound (next (machine.arena.get? id))
        (otherNext ((machine.arena.reworded guise.words).get? id))
      rw [Tree.Arena.get?_reworded]
      cases found : machine.arena.get? id with
      | none => exact nothing
      | some node => exact each node (fits.node found)

theorem textOf (value : Value) :
    guise.Renames (fun _ => True) (Run.textOf value) (Run.textOf value) := by
  intro machine fits
  refine ⟨?_, fits, trivial⟩
  exact congrArg (EStateM.Result.ok · (machine.reworded guise.words))
    (machine.store.text_reworded guise.words.spell value)

theorem elementsOf (id : ArrayId) :
    guise.Renames (fun items => ∀ value ∈ items, guise.Admits value) (Run.elementsOf id)
      (Run.elementsOf id) :=
  fun _ fits => ⟨rfl, fits, fun _ => fits.store.element⟩

theorem newArray {items : Array Value} (admitted : ∀ value ∈ items, guise.Admits value) :
    guise.Renames guise.Admits (Run.newArray items) (Run.newArray items) :=
  fun _ fits => ⟨rfl, ⟨fits.node, fits.store.addArray admitted⟩, trivial⟩

theorem push (id : ArrayId) {value : Value} (admitted : guise.Admits value) :
    guise.Renames (fun _ => True) (Run.changeStore (·.pushElement id value))
      (Run.changeStore (·.pushElement id value)) :=
  fun _ fits => ⟨rfl, ⟨fits.node, fits.store.pushElement id admitted⟩, trivial⟩

/-- A new function is shown. -/
theorem newCallable {callable : Callable} (quiet : callable.IsQuiet) :
    guise.Renames guise.Admits (Run.newCallable callable)
      (Run.newCallable (callable.reworded guise.words.spell)) := by
  intro machine fits
  refine ⟨?_, ⟨fits.node, fits.store.addCallable quiet⟩, ?_⟩
  · simp only [Run.newCallable, ending, Machine.reworded, Store.nextCallable_reworded,
      Store.addCallable_reworded]
  · exact (Nat.ne_of_lt fits.store.stored).symm

theorem define (name : String) {value : Value} (admitted : guise.Admits value) :
    guise.Renames (fun _ => True) (Run.define name value)
      (Run.define (guise.words.spell name) value) := by
  intro machine fits
  refine ⟨?_, ⟨fits.node, fits.store.bindIn _ name admitted⟩, trivial⟩
  simp only [Run.define, ending, Machine.reworded, Store.bindIn_reworded _ guise.injective]

theorem newScope
    (outer : Scope)
    {bindings : List (String × Value)}
    (admitted : ∀ binding ∈ bindings, guise.Admits binding.2) :
    guise.Renames (fun _ => True) (Run.newScope outer bindings)
      (Run.newScope outer (Bindings.reworded guise.words.spell bindings)) := by
  intro machine fits
  refine ⟨?_, ⟨fits.node, fits.store.addFrame.foldl_bindIn _ admitted⟩, trivial⟩
  simp only [Run.newScope, ending, Machine.reworded, Store.nextFrame_reworded,
    Store.addFrame_reworded, Store.foldl_bindIn_reworded _ guise.injective]

theorem unbound_reworded (words : Rewording) (name : Token) :
    (Store.unbound name).reworded words = Store.unbound (name.reworded words) :=
  Fault.atToken_reworded words _ name

/-- A name that may be said has a value that may be seen. -/
theorem valueOf {name : Token} (said : name.lexeme ≠ guise.unsaid) :
    guise.Renames guise.Admits (Run.valueOf name) (Run.valueOf (name.reworded guise.words)) := by
  intro machine fits
  have same : (machine.reworded guise.words).store.lookup machine.scope
      (name.reworded guise.words).lexeme = machine.store.lookup machine.scope name.lexeme :=
    machine.store.lookup_reworded guise.injective machine.scope name.lexeme
  have scope : (machine.reworded guise.words).scope = machine.scope := rfl
  simp only [Run.valueOf, Store.get, scope, same]
  cases found : machine.store.lookup machine.scope name.lexeme with
  | some value => exact ⟨rfl, fits, fits.store.admits_of_lookup found said⟩
  | none =>
      refine ⟨?_, fits⟩
      simp only [ending, Interrupt.told, unbound_reworded]

theorem assign (name : Token) {value : Value} (admitted : guise.Admits value) :
    guise.Renames (fun _ => True) (Run.assign name value)
      (Run.assign (name.reworded guise.words) value) := by
  intro machine fits
  have same : (machine.reworded guise.words).store.holder? machine.scope
      (name.reworded guise.words).lexeme = machine.store.holder? machine.scope name.lexeme :=
    machine.store.holder?_reworded guise.injective machine.scope name.lexeme
  have scope : (machine.reworded guise.words).scope = machine.scope := rfl
  simp only [Run.assign, scope, same]
  cases machine.store.holder? machine.scope name.lexeme with
  | some frame =>
      refine ⟨?_, ⟨fits.node, fits.store.bindIn frame _ admitted⟩, trivial⟩
      simp only [ending, Machine.reworded, Token.reworded, Store.bindIn_reworded _ guise.injective]
  | none =>
      refine ⟨?_, fits⟩
      simp only [ending, Interrupt.told, unbound_reworded]

theorem write (text : String) (token : Token) :
    guise.Renames (fun _ => True) (Run.write text token)
      (Run.write text (token.reworded guise.words)) := by
  intro machine fits
  have host : (machine.reworded guise.words).host = machine.host := rfl
  simp only [Run.write, host]
  cases machine.host.sink with
  | refusingText reason =>
      refine ⟨?_, fits⟩
      simp only [ending, Interrupt.told, Fault.atToken_reworded]
      rfl
  | _ => exact ⟨rfl, ⟨fits.node, fits.store⟩, trivial⟩

theorem flush : guise.Renames (fun _ => True) Run.flush Run.flush := by
  intro machine fits
  have host : (machine.reworded guise.words).host = machine.host := rfl
  simp only [Run.flush, host]
  cases machine.host.flush with
  | ok _ => exact ⟨rfl, fits, trivial⟩
  | error reason => exact ⟨rfl, fits⟩

/-- What is asked of the host does not depend on any names. -/
theorem ask (answer : Host → α × Host) (isSound : ∀ host, sound (answer host).1) :
    guise.Renames sound (Run.ask answer) (Run.ask answer) :=
  fun machine fits => ⟨rfl, ⟨fits.node, fits.store⟩, isSound machine.host⟩

end Renames
end Guise
end Scripting
