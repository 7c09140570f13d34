import Scripting.Proofs.Running.Discipline
import Scripting.Proofs.Running.Errands
import Scripting.Proofs.Running.Renumbered

/-!
# Everything is there that is referred to

No value at hand refers to an array or a function that the store does not have.  Nothing is
ever taken away from a store: it `Retains` its functions and its arrays, whatever is added to
them.  So this stays true of a value for as long as a run goes on, and it is true of every new
one: work `Encloses` a store if on every complete store that comes after it, it leaves one that
comes after that, and gives values that the store has then.

Main statements: `Steps.Enclosing.within`, that this is so of all that is evaluated, executed or
called, and `Run.Encloses.sourceWith`.
-/

namespace Scripting

open Tree (Node)

variable {α β : Type}

/-! ## What a store has -/

namespace Store

/-- What the value refers to is in the store. -/
def Has (store : Store) : Value → Prop
  | .array id => id < store.arrays.size
  | .callable id => id < store.callables.size
  | _ => True

/-- What a function gives back is in the store. -/
def HasFlow (store : Store) : Flow → Prop
  | .normal => True
  | .returning value => store.Has value

/-- What a built-in function gives is in the store. -/
def HasAnswer (store : Store) : Builtin.Answer → Prop
  | .ok value => store.Has value
  | .error _ => True

/-- The arrays of the one store are in the other, each with the elements that it had and
possibly more behind them, and so are the functions. -/
structure Retains (store later : Store) : Prop where
  arrays : ∀ id, id < store.arrays.size →
    id < later.arrays.size ∧ (store.elements id).toList <+: (later.elements id).toList
  callables : ∀ id callable, store.callable? id = some callable →
    later.callable? id = some callable

/-- The store has everything that is bound to a name or stands in an array. -/
structure Complete (store : Store) : Prop where
  names : ∀ frame name value, (store.bindings frame).find? name = some value → store.Has value
  elements : ∀ id, ∀ item ∈ store.elements id, store.Has item

variable {base store between later : Store} {value : Value}

namespace Retains

theorem of_eq
    (arrays : later.arrays = store.arrays)
    (callables : later.callables = store.callables) :
    store.Retains later where
  arrays id inside := by
    rw [elements, elements, arrays]
    exact ⟨inside, List.prefix_refl _⟩
  callables id callable found := by rwa [callable?, callables]

theorem refl (store : Store) : store.Retains store :=
  .of_eq rfl rfl

theorem trans (first : store.Retains between) (second : between.Retains later) :
    store.Retains later where
  arrays id inside :=
    let ⟨still, before⟩ := first.arrays id inside
    let ⟨last, after⟩ := second.arrays id still
    ⟨last, before.trans after⟩
  callables id callable found := second.callables id callable (first.callables id callable found)

theorem addArray (store : Store) (items : Array Value) :
    store.Retains (store.addArray items) where
  arrays id inside := by
    have same : (store.addArray items).elements id = store.elements id := by
      rw [elements, elements, Store.addArray, Array.getElem?_push_lt inside,
        Array.getElem?_eq_getElem inside]
    rw [same]
    exact ⟨by simp [Store.addArray, Nat.lt_succ_of_lt inside], List.prefix_refl _⟩
  callables _ _ found := found

theorem pushElement (store : Store) (id : ArrayId) (value : Value) :
    store.Retains (store.pushElement id value) where
  arrays other inside := by
    refine ⟨by simpa [Store.pushElement] using inside, ?_⟩
    by_cases same : other = id
    · subst same
      simp [elements_pushElement_self _ value inside]
    · simp [elements, Store.pushElement, Array.getElem?_modify, Ne.symm same]
  callables _ _ found := found

theorem addCallable (store : Store) (callable : Callable) :
    store.Retains (store.addCallable callable) where
  arrays _ inside := ⟨inside, List.prefix_refl _⟩
  callables id stored found := by
    obtain ⟨inside, -⟩ := Array.getElem?_eq_some_iff.mp found
    rwa [callable?, Store.addCallable, Array.getElem?_push_lt inside,
      ← Array.getElem?_eq_getElem inside]

end Retains

theorem Has.mono (has : store.Has value) (retains : store.Retains later) : later.Has value := by
  cases value with
  | array id => exact (retains.arrays id has).1
  | callable id =>
      obtain ⟨inside, -⟩ := Array.getElem?_eq_some_iff.mp
        (retains.callables id _ (Array.getElem?_eq_getElem has))
      exact inside
  | _ => trivial

/-- What is looked up is in the store. -/
theorem Complete.has_of_lookup
    (complete : store.Complete)
    {scope : Scope}
    {name : String}
    (found : store.lookup scope name = some value) :
    store.Has value := by
  obtain ⟨frame, -, bound⟩ := List.exists_of_findSome?_eq_some found
  exact complete.names frame name value bound

theorem Complete.closed (complete : store.Complete) : store.Closed := by
  have before {value : Value} (has : store.Has value) : value.IsBefore store.arrays.size := by
    cases value with
    | array id => exact has
    | _ => trivial
  exact ⟨fun frame name value bound => before (complete.names frame name value bound),
    fun id item member => before (complete.elements id item member)⟩

/-- A store without values is complete. -/
theorem complete_fresh : fresh.Complete where
  names frame name value found := by
    have empty : fresh.bindings frame = [] := by
      cases frame <;> rfl
    rw [empty] at found
    cases found
  elements _ _ member := nomatch member

/-- A constant refers to nothing. -/
theorem has_ofConstant? (store : Store) (constant : Option Tree.Constant) :
    store.Has (Value.ofConstant? constant) := by
  cases constant with
  | none => trivial
  | some constant => cases constant <;> trivial

/-- The store is complete and comes after another one. -/
structure Holds (store base : Store) : Prop where
  complete : store.Complete
  retains : base.Retains store

namespace Holds

theorem mono (holds : store.Holds between) (retains : base.Retains between) : store.Holds base :=
  ⟨holds.complete, retains.trans holds.retains⟩

theorem bindIn
    (holds : store.Holds base)
    (frame : FrameId)
    (name : String)
    (has : base.Has value) :
    (store.bindIn frame name value).Holds base where
  retains := holds.retains.trans (.of_eq rfl rfl)
  complete :=
    { names := fun other sought found isBound => by
        have present : store.Has value := has.mono holds.retains
        rw [bindings_bindIn] at isBound
        split at isBound
        · by_cases same : sought = name
          · rw [same, Bindings.find?_bind_self] at isBound
            exact Option.some.inj isBound ▸ present
          · rw [Bindings.find?_bind_of_ne _ _ same] at isBound
            exact holds.complete.names other sought found isBound
        · exact holds.complete.names other sought found isBound
      elements := holds.complete.elements }

theorem foldl_bindIn
    (holds : store.Holds base)
    (frame : FrameId)
    {bindings : List (String × Value)}
    (has : ∀ binding ∈ bindings, base.Has binding.2) :
    (bindings.foldl (fun store binding => store.bindIn frame binding.1 binding.2)
      store).Holds base := by
  induction bindings generalizing store with
  | nil => exact holds
  | cons binding rest inductionHypothesis =>
      rw [List.forall_mem_cons] at has
      exact inductionHypothesis (holds.bindIn frame binding.1 has.1) has.2

theorem addFrame (holds : store.Holds base) : store.addFrame.Holds base where
  retains := holds.retains.trans (.of_eq rfl rfl)
  complete :=
    { names := fun frame name value isBound =>
        holds.complete.names frame name value (store.bindings_addFrame frame ▸ isBound)
      elements := holds.complete.elements }

theorem addArray
    (holds : store.Holds base)
    {items : Array Value}
    (has : ∀ item ∈ items, base.Has item) :
    (store.addArray items).Holds base := by
  have more := Retains.addArray store items
  refine ⟨⟨fun frame name value isBound => ?_, fun id item member => ?_⟩,
    holds.retains.trans more⟩
  · exact (holds.complete.names frame name value isBound).mono more
  · rw [elements, Store.addArray, Array.getElem?_push] at member
    split at member
    · exact ((has item member).mono holds.retains).mono more
    · exact (holds.complete.elements id item member).mono more

theorem pushElement
    (holds : store.Holds base)
    (id : ArrayId)
    (has : base.Has value) :
    (store.pushElement id value).Holds base := by
  have more := Retains.pushElement store id value
  refine ⟨⟨fun frame name found isBound => ?_, fun other item member => ?_⟩,
    holds.retains.trans more⟩
  · exact (holds.complete.names frame name found isBound).mono more
  · rw [elements, Store.pushElement, Array.getElem?_modify] at member
    split at member
    next found =>
      subst found
      cases present : store.arrays[id]? with
      | none => simp [present] at member
      | some items =>
          simp only [present, Option.map_some, Option.getD_some, Array.mem_push] at member
          obtain old | rfl := member
          · have stored : item ∈ store.elements id := by rwa [elements, present]
            exact (holds.complete.elements id item stored).mono more
          · exact (has.mono holds.retains).mono more
    next => exact (holds.complete.elements other item member).mono more

theorem addCallable (holds : store.Holds base) (callable : Callable) :
    (store.addCallable callable).Holds base := by
  have more := Retains.addCallable store callable
  exact ⟨⟨fun frame name value isBound => (holds.complete.names frame name value isBound).mono more,
    fun id item member => (holds.complete.elements id item member).mono more⟩,
    holds.retains.trans more⟩

end Holds
end Store

/-! ## Work in general -/

namespace Run

/-- However the work ends, the store it leaves is complete and comes after the given one, and it
shows the value that the work gives to be sound. -/
def Leaves (base : Store) (shows : Store → α → Prop) : EStateM.Result Interrupt Machine α → Prop
  | .ok value later => later.store.Holds base ∧ shows later.store value
  | .error _ later => later.store.Holds base

/-- On a complete store that comes after the given one, the work leaves another such store. -/
def Encloses (base : Store) (shows : Store → α → Prop) (work : Run α) : Prop :=
  ∀ machine : Machine, machine.store.Holds base → Leaves base shows (work machine)

/-- Nothing is asked of the value that the work gives. -/
abbrev anything : Store → α → Prop := fun _ _ => True

namespace Encloses

variable {base : Store} {shows : Store → α → Prop} {showsNext : Store → β → Prop} {work : Run α}

/-- However the work ends, the store it leaves is complete and comes after the given one. -/
theorem holds_machineAfter
    (encloses : Encloses base shows work)
    {machine : Machine}
    (holds : machine.store.Holds base) :
    (machineAfter (work machine)).store.Holds base := by
  have leaves := encloses machine holds
  cases ends : work machine with
  | ok value later =>
      rw [ends] at leaves
      exact leaves.1
  | error interrupt later =>
      rw [ends] at leaves
      exact leaves

theorem shown_of_ok
    (encloses : Encloses base shows work)
    {machine later : Machine}
    (holds : machine.store.Holds base)
    {value : α}
    (ends : work machine = .ok value later) :
    shows later.store value := by
  have leaves := encloses machine holds
  rw [ends] at leaves
  exact leaves.2

theorem pure
    {value : α}
    (shown : ∀ later, base.Retains later → shows later value) :
    Encloses base shows (Pure.pure value) :=
  fun _ holds => ⟨holds, shown _ holds.retains⟩

theorem interrupted (interrupt : Interrupt) : Encloses base shows (throw interrupt : Run α) :=
  fun _ holds => holds

theorem fail (cause : Cause) (token : Token) : Encloses base shows (Run.fail cause token) :=
  fun _ holds => holds

theorem bind
    {next : α → Run β}
    (first : Encloses base shows work)
    (second : ∀ later value, base.Retains later → shows later value →
      Encloses later showsNext (next value)) :
    Encloses base showsNext (work >>= next) := by
  intro machine holds
  have leaves := first machine holds
  cases ends : work machine with
  | ok value later =>
      rw [ends] at leaves
      have more := leaves.1.retains
      have after := second _ value more leaves.2 later ⟨leaves.1.complete, Store.Retains.refl _⟩
      rw [Run.bind_of_ok ends]
      cases endsNext : next value later with
      | ok result last =>
          rw [endsNext] at after
          exact ⟨after.1.mono more, after.2⟩
      | error interrupt last =>
          rw [endsNext] at after
          exact after.mono more
  | error interrupt later =>
      rw [ends] at leaves
      rwa [Run.bind_of_error ends]

/-- Work that only looks at the machine. -/
theorem looking
    {look : Machine → α}
    (shown : ∀ machine : Machine, machine.store.Complete →
      shows machine.store (look machine)) :
    Encloses base shows (fun machine => .ok (look machine) machine) :=
  fun machine holds => ⟨holds, shown machine holds.complete⟩

/-- Work that asks the host for something. -/
theorem asking
    (ask : Host → α × Host)
    (shown : ∀ host store, shows store (ask host).1) :
    Encloses base shows fun machine =>
      .ok (ask machine.host).1 { machine with host := (ask machine.host).2 } :=
  fun machine holds => ⟨holds, shown machine.host _⟩

theorem get_bind
    {next : Machine → Run α}
    (each : ∀ machine, Encloses base shows (next machine)) :
    Encloses base shows (get >>= next) :=
  fun machine holds => each machine machine holds

theorem textOf (value : Value) : Encloses base anything (Run.textOf value) :=
  looking fun _ _ => trivial

theorem node? (id : Option Tree.NodeId) : Encloses base anything (Run.node? id) :=
  looking fun _ _ => trivial

theorem callableAt? (id : CallableId) : Encloses base anything (Run.callableAt? id) :=
  looking fun _ _ => trivial

theorem elementsOf (id : ArrayId) :
    Encloses base (fun store items => ∀ item ∈ items, store.Has item) (Run.elementsOf id) :=
  looking fun _ complete => complete.elements id

theorem valueOf (name : Token) :
    Encloses base Store.Has (Run.valueOf name) := by
  intro machine holds
  unfold Run.valueOf Store.get
  cases found : machine.store.lookup machine.scope name.lexeme with
  | none => exact holds
  | some value => exact ⟨holds, holds.complete.has_of_lookup found⟩

/-! ### Steps that change the store -/

theorem newArray {items : Array Value} (has : ∀ item ∈ items, base.Has item) :
    Encloses base Store.Has (Run.newArray items) := by
  intro machine holds
  refine ⟨holds.addArray has, ?_⟩
  simp [Store.Has, Store.addArray, Store.nextArray]

theorem push (id : ArrayId) {value : Value} (has : base.Has value) :
    Encloses base anything (Run.changeStore (·.pushElement id value)) :=
  fun _ holds => ⟨holds.pushElement id has, trivial⟩

theorem newCallable (callable : Callable) :
    Encloses base Store.Has (Run.newCallable callable) :=
  fun _ holds => ⟨holds.addCallable callable, by
    simp [Store.Has, Store.addCallable, Store.nextCallable]⟩

theorem define (name : String) {value : Value} (has : base.Has value) :
    Encloses base anything (Run.define name value) :=
  fun _ holds => ⟨holds.bindIn _ name has, trivial⟩

theorem newScope
    (outer : Scope)
    {bindings : List (String × Value)}
    (has : ∀ binding ∈ bindings, base.Has binding.2) :
    Encloses base anything (Run.newScope outer bindings) :=
  fun _ holds => ⟨holds.addFrame.foldl_bindIn _ has, trivial⟩

theorem assign (name : Token) {value : Value} (has : base.Has value) :
    Encloses base anything (Run.assign name value) := by
  intro machine holds
  unfold Run.assign
  cases machine.store.holder? machine.scope name.lexeme with
  | some frame => exact ⟨holds.bindIn frame _ has, trivial⟩
  | none => exact holds

theorem write (text : String) (token : Token) : Encloses base anything (Run.write text token) := by
  intro machine holds
  unfold Run.write
  cases machine.host.sink with
  | refusingText reason => exact holds
  | _ => exact ⟨holds, trivial⟩

theorem flush : Encloses base anything Run.flush := by
  intro machine holds
  unfold Run.flush
  cases machine.host.flush with
  | ok _ => exact ⟨holds, trivial⟩
  | error reason => exact holds

/-! ### Work in between -/

theorem attempt (encloses : Encloses base shows work) :
    Encloses base (fun store outcome => ∀ value, outcome = .ok value → shows store value)
      (Run.attempt work) := by
  intro machine holds
  have leaves := encloses machine holds
  unfold Run.attempt
  cases ends : work machine with
  | ok value later =>
      rw [ends] at leaves
      refine ⟨leaves.1, ?_⟩
      rintro _ ⟨⟩
      exact leaves.2
  | error interrupt later =>
      rw [ends] at leaves
      cases interrupt with
      | fault fault => exact ⟨leaves, nofun⟩
      | exhausted => exact leaves

theorem inScope (scope : Scope) (encloses : Encloses base shows work) :
    Encloses base shows (Run.inScope scope work) := by
  intro machine holds
  have leaves := encloses { machine with scope } holds
  unfold Run.inScope
  cases ends : work { machine with scope } with
  | ok value later =>
      rw [ends] at leaves
      exact leaves
  | error interrupt later =>
      rw [ends] at leaves
      exact leaves

theorem atTopLevel (encloses : Encloses base shows work) :
    Encloses base shows (Run.atTopLevel work) := by
  intro machine holds
  have leaves := encloses { machine with scope := Scope.global, base := machine.depth } holds
  unfold Run.atTopLevel
  cases ends : work { machine with scope := Scope.global, base := machine.depth } with
  | ok value later =>
      rw [ends] at leaves
      exact leaves
  | error interrupt later =>
      rw [ends] at leaves
      exact leaves

theorem inCall (token : Token) (encloses : Encloses base shows work) :
    Encloses base shows (Run.inCall token work) := by
  intro machine holds
  have leaves := encloses { machine with depth := machine.depth + 1 } holds
  unfold Run.inCall
  cases ends : work { machine with depth := machine.depth + 1 } with
  | ok value later =>
      rw [ends] at leaves
      exact leaves
  | error interrupt later =>
      rw [ends] at leaves
      cases interrupt <;> exact leaves

/-! ## Operators -/

theorem unaryValue (operator : Token) (operand : Value) :
    Encloses base Store.Has (Steps.unaryValue operator operand) := by
  unfold Steps.unaryValue
  split
  · cases operand <;> first | exact pure fun _ _ => trivial | exact fail _ _
  · exact pure fun _ _ => trivial
  · exact pure fun _ _ => trivial

theorem numbers (operator : Token) (left right : Value) :
    Encloses base anything (Steps.numbers operator left right) := by
  unfold Steps.numbers
  split
  · exact pure fun _ _ => trivial
  · exact fail _ _

theorem sum (operator : Token) (left right : Value) :
    Encloses base Store.Has (Steps.sum operator left right) := by
  have texts {left right : Value} :
      Encloses base Store.Has (do
        let leftText ← Run.textOf left
        let rightText ← Run.textOf right
        return Value.text (leftText ++ rightText)) :=
    (textOf _).bind fun _ _ _ _ => (textOf _).bind fun _ _ _ _ => pure fun _ _ => trivial
  unfold Steps.sum
  split
  · exact pure fun _ _ => trivial
  · exact texts
  · exact texts
  · exact fail _ _

theorem quotient (operator : Token) (left right : Value) :
    Encloses base Store.Has
      (Steps.quotient operator left right) := by
  refine (numbers operator left right).bind fun later pair _ _ => ?_
  dsimp only
  split
  · exact fail _ _
  · exact pure fun _ _ => trivial

theorem binaryValue (operator : Token) (left right : Value) :
    Encloses base Store.Has
      (Steps.binaryValue operator left right) := by
  have ofNumbers (value : Float × Float → Value)
      (plain : ∀ pair (store : Store), store.Has (value pair)) :
      Encloses base Store.Has
        (Steps.numbers operator left right >>= fun pair => (Pure.pure (value pair) : Run Value)) :=
    (numbers operator left right).bind fun _ pair _ _ => pure fun later _ => plain pair later
  unfold Steps.binaryValue
  split
  case h_3 => exact sum operator left right
  case h_6 => exact quotient operator left right
  case h_1 | h_2 | h_11 => exact pure fun _ _ => trivial
  all_goals exact ofNumbers _ fun _ _ => trivial

theorem elementAt (bracket : Token) (target position : Value) :
    Encloses base Store.Has
      (Steps.elementAt bracket target position) := by
  unfold Steps.elementAt
  cases target with
  | array id =>
      cases position with
      | number number =>
          refine (elementsOf id).bind fun later items _ has => ?_
          dsimp only
          split
          next item _ found =>
              have shown := has item (Array.mem_of_getElem? found)
              exact pure fun _ more => shown.mono more
          · exact fail _ _
      | _ => exact fail _ _
  | _ => exact fail _ _

/-! ## Built-in functions -/

section Builtins

variable {arguments : List Value}

theorem seekFiles (path : String) : Encloses base anything (Builtin.seekFiles path) :=
  asking (fun host => (host.files, host.wishing (.path path))) fun _ _ => trivial

theorem readText (path : String) : Encloses base anything (Builtin.readText path) := by
  refine (seekFiles path).bind fun _ files _ _ => ?_
  cases files.read path <;> exact pure fun _ _ => trivial

theorem firstFile? (paths : List String) : Encloses base anything (Builtin.firstFile? paths) := by
  induction paths generalizing base with
  | nil => exact pure fun _ _ => trivial
  | cons path others inductionHypothesis =>
      refine (seekFiles path).bind fun later files _ _ => ?_
      split
      · exact pure fun _ _ => trivial
      · exact inductionHypothesis

theorem programPath? (path : String) : Encloses base anything (Builtin.programPath? path) := by
  refine get_bind fun machine => ?_
  dsimp only
  split <;> exact firstFile? _

theorem readFile (path : Value) :
    Encloses base Store.HasAnswer (Builtin.readFile path) := by
  unfold Builtin.readFile
  cases Builtin.pathOf path with
  | error reason => exact pure fun _ _ => trivial
  | ok path =>
      refine (readText path).bind fun later text _ _ => ?_
      cases text <;> exact pure fun _ _ => trivial

theorem writeFile (path value : Value) :
    Encloses base Store.HasAnswer (Builtin.writeFile path value) := by
  unfold Builtin.writeFile
  cases Builtin.pathOf path with
  | error reason => exact pure fun _ _ => trivial
  | ok path =>
      refine (textOf value).bind fun later text _ _ => (seekFiles path).bind fun _ files _ _ => ?_
      cases files.write path text with
      | error problem => exact pure fun _ _ => trivial
      | ok changed =>
          have changing {base : Store} : Encloses base anything (modify fun machine : Machine =>
              { machine with host := { machine.host with files := changed } } : Run PUnit) :=
            fun _ holds => ⟨holds, trivial⟩
          exact changing.bind fun _ _ _ _ => pure fun _ _ => trivial

theorem systemVariable (name : Value) :
    Encloses base Store.HasAnswer (Builtin.systemVariable name) := by
  intro machine holds
  cases name with
  | text name =>
      refine ⟨holds, ?_⟩
      cases machine.host.valueOf? name <;> trivial
  | _ => exact ⟨holds, trivial⟩

theorem split (text separator : Value) :
    Encloses base Store.HasAnswer (Builtin.split text separator) := by
  have made {items : Array Value} (has : ∀ item ∈ items, base.Has item) :
      Encloses base Store.HasAnswer (Run.newArray items >>= fun value =>
        (Pure.pure (.ok value) : Run Builtin.Answer)) :=
    (newArray has).bind fun _ _ _ shown => pure fun _ more => shown.mono more
  unfold Builtin.split
  split
  · refine made fun item member => ?_
    simp only [List.mem_toArray, List.mem_map] at member
    obtain ⟨part, -, rfl⟩ := member
    trivial
  · exact made (by simp)

theorem isBefore_headD (has : ∀ value ∈ arguments, base.Has value) :
    base.Has (arguments.headD .null) := by
  cases arguments with
  | nil => trivial
  | cons first rest => exact has first List.mem_cons_self

end Builtins

end Encloses
end Run

/-! ## Steps -/

/-- The steps leave stores complete. -/
structure Steps.Enclosing (steps : Steps) : Prop where
  evaluate {base : Store} (id : Option Tree.NodeId) :
    Run.Encloses base Store.Has (steps.evaluate id)
  execute {base : Store} (id : Option Tree.NodeId) :
    Run.Encloses base Store.HasFlow (steps.execute id)
  call {base : Store} (callable : Callable) {arguments : List Value} :
    (∀ value ∈ arguments, base.Has value) →
      Run.Encloses base Store.Has (steps.call callable arguments)

namespace Run.Encloses

variable {steps : Steps} (enclosing : steps.Enclosing) {base : Store}

include enclosing

/-! ### Programs -/

theorem interpretWith (root : Tree.NodeId) :
    Encloses base anything (Run.interpretWith steps root) :=
  (atTopLevel (enclosing.execute _)).bind fun _ _ _ _ => flush

theorem sourceWith (source : String) : Encloses base anything (Run.sourceWith steps source) := by
  have reading : Encloses base anything (Run.readSource source) := fun _ holds => ⟨holds, trivial⟩
  refine reading.bind fun later found _ _ => ?_
  dsimp only
  split
  · exact pure fun _ _ => trivial
  · refine (interpretWith enclosing _).attempt.bind fun _ outcome _ _ => ?_
    cases outcome <;> exact pure fun _ _ => trivial

/-! ### Calls of built-in functions -/

theorem runFile (path : Value) :
    Encloses base Store.HasAnswer (Builtin.runFile steps path) := by
  unfold Builtin.runFile
  cases Builtin.pathOf path with
  | error reason => exact pure fun _ _ => trivial
  | ok path =>
      refine (programPath? path).bind fun _ found _ _ => ?_
      cases found with
      | none => exact pure fun _ _ => trivial
      | some found =>
          refine (readText found).bind fun _ text _ _ => ?_
          cases text with
          | error reason => exact pure fun _ _ => trivial
          | ok source =>
              refine (sourceWith enclosing source).bind fun _ faults _ _ => ?_
              dsimp only
              split <;> exact pure fun _ _ => trivial

theorem apply (target items : Value) :
    Encloses base Store.HasAnswer (Builtin.apply steps target items) := by
  unfold Builtin.apply
  dsimp only
  split
  next id items =>
      refine (callableAt? id).bind fun _ found _ _ => ?_
      cases found with
      | none => exact pure fun _ _ => trivial
      | some callable =>
          refine (elementsOf items).bind fun later arguments _ has => ?_
          refine (enclosing.call callable fun value member =>
            has value (by simpa using member)).attempt.bind fun _ outcome _ shown => ?_
          cases outcome with
          | ok value => exact pure fun _ more => (shown value rfl).mono more
          | error fault => exact pure fun _ _ => trivial
  · exact pure fun _ _ => trivial

theorem answer
    (action : Action)
    {arguments : List Value}
    (has : ∀ value ∈ arguments, base.Has value) :
    Encloses base Store.HasAnswer (Builtin.answer steps action arguments) := by
  have first := isBefore_headD has
  have second : base.Has (arguments.tail.headD .null) :=
    isBefore_headD fun value member => has value (List.mem_of_mem_tail member)
  unfold Builtin.answer
  dsimp only
  generalize arguments.headD .null = value at first ⊢
  generalize arguments.tail.headD .null = other at second ⊢
  cases action with
  | clock =>
      exact asking (fun host => (Except.ok (Value.number host.readClock.1), host.readClock.2))
        fun _ _ => trivial
  | «variable» => exact systemVariable value
  | size =>
      cases value with
      | array id => exact (elementsOf id).bind fun _ _ _ _ => pure fun _ _ => trivial
      | _ => exact pure fun _ _ => trivial
  | trim =>
      cases value with
      | array _ | callable _ => exact pure fun _ more => first.mono more
      | _ => exact pure fun _ _ => trivial
  | split => exact split value other
  | push =>
      cases value with
      | array id =>
          exact (push id second).bind fun _ _ more _ => pure fun _ further =>
            (first.mono more).mono further
      | _ => exact pure fun _ _ => trivial
  | text => exact (textOf _).bind fun _ _ _ _ => pure fun _ _ => trivial
  | typeName => exact pure fun _ _ => trivial
  | readFile => exact readFile _
  | writeFile => exact writeFile _ _
  | runFile => exact runFile enclosing _
  | refuse => exact (textOf _).bind fun _ _ _ _ => pure fun _ _ => trivial
  | apply => exact apply enclosing _ _

theorem perform
    (given : Builtin)
    {arguments : List Value}
    (has : ∀ value ∈ arguments, base.Has value) :
    Encloses base Store.Has
      (Builtin.perform steps given arguments) := by
  refine (answer enclosing given.action has).bind fun _ outcome _ shown => ?_
  cases outcome with
  | ok value => exact pure fun _ more => shown.mono more
  | error reason => exact interrupted _

/-! ### Statements -/

omit enclosing in
theorem declareFunction (node : Node) :
    Encloses base Store.HasFlow (Steps.declareFunction node) := by
  have names : Encloses base anything (Steps.parameterNames node) := looking fun _ _ => trivial
  exact names.bind fun _ _ _ _ => get_bind fun _ => (newCallable _).bind fun _ _ _ shown =>
    (define _ shown).bind fun _ _ _ _ => pure fun _ _ => trivial

theorem executeAll (ids : List (Option Tree.NodeId)) :
    Encloses base Store.HasFlow (steps.executeAll ids) := by
  induction ids generalizing base with
  | nil => exact pure fun _ _ => trivial
  | cons id others inductionHypothesis =>
      refine (enclosing.execute id).bind fun _ flow _ shown => ?_
      cases flow with
      | returning value => exact pure fun _ more => shown.mono more
      | normal => exact inductionHypothesis

theorem executeBlock
    (outer : Scope)
    {bindings : List (String × Value)}
    (has : ∀ binding ∈ bindings, base.Has binding.2)
    (node : Node) :
    Encloses base Store.HasFlow (steps.executeBlock outer bindings node) :=
  (newScope outer has).bind fun _ scope _ _ => (executeAll enclosing node.children).inScope scope

theorem executeLoop (node : Node) (rounds : Nat) :
    Encloses base Store.HasFlow (steps.executeLoop node rounds) := by
  induction rounds generalizing base with
  | zero => exact interrupted _
  | succ rounds inductionHypothesis =>
      refine (enclosing.evaluate _).bind fun _ condition _ _ => ?_
      split
      · refine (enclosing.execute _).bind fun _ flow _ shown => ?_
        cases flow with
        | returning value => exact pure fun _ more => shown.mono more
        | normal => exact inductionHypothesis
      · exact pure fun _ _ => trivial

theorem giveBack (node : Node) : Encloses base Store.HasFlow (steps.giveBack node) := by
  refine get_bind fun machine => ?_
  split
  · exact fail _ _
  · exact (enclosing.evaluate _).bind fun _ value _ shown => pure fun _ more => shown.mono more

theorem executeNode (id : Option Tree.NodeId) :
    Encloses base Store.HasFlow (steps.executeNode id) := by
  refine (node? id).bind fun later found _ _ => ?_
  cases found with
  | none => exact pure fun _ _ => trivial
  | some node =>
      dsimp only
      cases node.kind with
      | statements => exact executeAll enclosing _
      | declaration =>
          exact (enclosing.evaluate _).bind fun _ value _ shown =>
            (define node.name shown).bind fun _ _ _ _ => pure fun _ _ => trivial
      | echo =>
          exact (enclosing.evaluate _).bind fun _ value _ _ => (textOf value).bind fun _ text _ _ =>
            (write _ _).bind fun _ _ _ _ => pure fun _ _ => trivial
      | discard => exact (enclosing.evaluate _).bind fun _ _ _ _ => pure fun _ _ => trivial
      | block => exact get_bind fun machine =>
          executeBlock enclosing machine.scope (List.forall_mem_nil _) node
      | branch =>
          refine (enclosing.evaluate _).bind fun _ condition _ _ => ?_
          split <;> exact enclosing.execute _
      | loop => exact executeLoop enclosing node steps.rounds
      | function => exact declareFunction node
      | giveBack => exact giveBack enclosing node
      | _ => exact (enclosing.evaluate id).bind fun _ _ _ _ => pure fun _ _ => trivial

/-! ### Calls -/

theorem callFunction
    (declared : Function)
    {arguments : List Value}
    (has : ∀ value ∈ arguments, base.Has value) :
    Encloses base Store.Has
      (steps.callFunction declared arguments) := by
  refine (node? declared.body).bind fun later found more _ => ?_
  cases found with
  | none => exact pure fun _ _ => trivial
  | some body =>
      have bound : ∀ binding ∈ declared.parameters.zip arguments, later.Has binding.2 :=
        fun binding member => (has _ (List.of_mem_zip member).2).mono more
      refine (executeBlock enclosing declared.closure bound body).bind fun _ flow _ shown => ?_
      cases flow with
      | returning value => exact pure fun _ more => shown.mono more
      | normal => exact pure fun _ _ => trivial

theorem callCallable
    (callable : Callable)
    {arguments : List Value}
    (has : ∀ value ∈ arguments, base.Has value) :
    Encloses base Store.Has
      (steps.callCallable callable arguments) := by
  cases callable with
  | function declared => exact callFunction enclosing declared has
  | builtin given => exact perform enclosing given has

theorem callFound
    (found : Option Callable)
    (paren : Token)
    {arguments : Array Value}
    (has : ∀ value ∈ arguments, base.Has value) :
    Encloses base Store.Has
      (steps.callFound paren arguments found) := by
  cases found with
  | none => exact fail _ _
  | some callable =>
      have called : Encloses base Store.Has
          (steps.call callable arguments.toList) :=
        enclosing.call callable fun value member => has value (by simpa using member)
      simp only [Steps.callFound]
      split
      · exact fail _ _
      · refine get_bind fun machine => ?_
        split
        · exact fail _ _
        · exact called.inCall paren

theorem callValue
    (paren : Token)
    (target : Value)
    {arguments : Array Value}
    (has : ∀ value ∈ arguments, base.Has value) :
    Encloses base Store.Has
      (steps.callValue paren target arguments) := by
  rw [Steps.callValue_eq]
  cases target with
  | callable id =>
      exact (callableAt? id).bind fun _ found more _ =>
        callFound enclosing found paren fun value member => (has value member).mono more
  | _ => exact callFound enclosing none paren has

/-! ### Evaluation -/

theorem evaluateAll
    (ids : List (Option Tree.NodeId))
    {values : Array Value}
    (has : ∀ value ∈ values, base.Has value) :
    Encloses base (fun store values => ∀ value ∈ values, store.Has value)
      (steps.evaluateAll ids values) := by
  induction ids generalizing base values with
  | nil => exact pure fun _ more value member => (has value member).mono more
  | cons id others inductionHypothesis =>
      refine (enclosing.evaluate id).bind fun later value more shown => inductionHypothesis ?_
      intro other member
      obtain old | rfl := Array.mem_push.mp member
      · exact (has other old).mono more
      · exact shown

theorem logical (node : Node) :
    Encloses base Store.Has (steps.logical node) := by
  refine (enclosing.evaluate _).bind fun _ left _ shown => ?_
  dsimp only
  split <;> split
  all_goals first
    | exact pure fun _ more => shown.mono more
    | exact enclosing.evaluate _

theorem evaluateNode (id : Option Tree.NodeId) :
    Encloses base Store.Has (steps.evaluateNode id) := by
  refine (node? id).bind fun later found _ _ => ?_
  cases found with
  | none => exact pure fun _ _ => trivial
  | some node =>
      dsimp only
      cases node.kind with
      | constant => exact pure fun _ _ => Store.has_ofConstant? _ _
      | group => exact enclosing.evaluate _
      | «variable» => exact valueOf _
      | assignment =>
          exact (enclosing.evaluate _).bind fun _ value _ shown =>
            (assign node.token shown).bind fun _ _ more _ => pure fun _ further =>
              (shown.mono more).mono further
      | logical => exact logical enclosing node
      | unary => exact (enclosing.evaluate _).bind fun _ value _ _ => unaryValue _ value
      | binary =>
          exact (enclosing.evaluate _).bind fun _ left _ _ =>
            (enclosing.evaluate _).bind fun _ right _ _ => binaryValue _ left right
      | call =>
          exact (enclosing.evaluate _).bind fun _ target _ _ =>
            (evaluateAll enclosing _ (by simp)).bind fun _ arguments _ has =>
              callValue enclosing _ target has
      | array =>
          exact (evaluateAll enclosing _ (by simp)).bind fun _ items _ has => newArray has
      | index =>
          exact (enclosing.evaluate _).bind fun _ target _ _ =>
            (enclosing.evaluate _).bind fun _ position _ _ => elementAt _ target position
      | parameter => exact pure fun _ _ => trivial
      | _ => exact (enclosing.execute id).bind fun _ _ _ _ => pure fun _ _ => trivial

end Run.Encloses

namespace Steps.Enclosing

/-- The steps that go on with such steps are such steps, too. -/
theorem next {steps : Steps} (enclosing : steps.Enclosing) : steps.next.Enclosing where
  evaluate := .evaluateNode enclosing
  execute := .executeNode enclosing
  call callable _ has := .callCallable enclosing callable has

/-- Within any bound, whatever is evaluated, executed or called leaves a complete store complete,
and gives values that it has. -/
theorem within (bound : Nat) : (Run.within bound).Enclosing := by
  induction bound with
  | zero => exact ⟨fun _ => .interrupted _, fun _ => .interrupted _, fun _ _ _ => .interrupted _⟩
  | succ bound inductionHypothesis =>
      rw [Run.within_succ]
      exact inductionHypothesis.next

end Steps.Enclosing
end Scripting
