import Scripting.Proofs.Meaning.Rules
import Scripting.Proofs.Alike.Machines

/-!
# Machines and states

A machine stands for a state in a context when the two hold the same values and have
the same surroundings, and where a function of the machine has the index of a block, a
tree of statements stands that are the body of the function in the state.

`Gives` says how a piece of work ends on a machine, in terms of states.  The small
steps of a machine give what the operations on states say (`Represents.newArray` and
the others), and work gives what its parts give one after the other (`Gives.bind`).
-/

namespace Scripting
namespace Meaning

open Tree (Arena Statement)

variable {α β : Type}

/-- The function stands for the other one, whose body stands in the arena. -/
inductive Denotes (arena : Arena) : Callable → Definition → Prop
  | builtin (given : Builtin) : Denotes arena (.builtin given) (.builtin given)
  | function (name : String) (parameters : List String) (closure : Scope)
      {id : Option Tree.NodeId} {brace : Token} {body : List Statement} :
      (Tree.Rose.node .block brace none (Statement.roses body)).StandsAt arena id →
      Denotes arena (.function ⟨name, parameters, id, closure⟩)
        (.function name parameters body closure)

namespace Denotes

variable {arena later : Arena} {callable : Callable} {definition : Definition}

theorem mono (denotes : Denotes arena callable definition) (before : arena ≤ later) :
    Denotes later callable definition := by
  cases denotes with
  | builtin given => exact .builtin given
  | function name parameters closure stands =>
      exact .function name parameters closure (stands.mono before)

theorem arity_eq (denotes : Denotes arena callable definition) :
    callable.arity = definition.arity := by
  cases denotes <;> rfl

theorem description_eq (denotes : Denotes arena callable definition) :
    definition.outline.description = callable.description := by
  cases denotes <;> rfl

/-- No function stands for two others. -/
theorem unique
    {other : Definition}
    (denotes : Denotes arena callable definition)
    (otherDenotes : Denotes arena callable other) :
    definition = other := by
  cases denotes with
  | builtin given =>
      cases otherDenotes with
      | builtin _ => rfl
  | function name parameters closure stands =>
      cases otherDenotes with
      | function _ _ _ otherStands =>
          have same := stands.unique otherStands
          simp only [Tree.Rose.node.injEq, true_and] at same
          rw [Statement.roses_injective same.2]

end Denotes

/-- The context in which a machine works. -/
def contextOf (machine : Machine) : Context where
  scope := machine.scope
  depth := machine.depth
  base := machine.base
  limit := machine.limit
  libraries := machine.libraries

/-- The machine stands for the state in the context. Frames, arrays and the surroundings are
the same; functions are related, since the machine has only indices of their bodies. -/
structure Represents (context : Context) (state : State) (machine : Machine) : Prop where
  context : contextOf machine = context
  frames : machine.store.frames = state.frames
  arrays : machine.store.arrays = state.arrays
  count : machine.store.callables.size = state.functions.size
  functions (id : CallableId) :
    Option.Rel (Denotes machine.arena) (machine.store.callable? id) state.functions[id]?
  host : machine.host = state.host

/-- How work ends without the bound being used up. -/
def ended : Except Fault α → Machine → EStateM.Result Interrupt Machine α
  | .ok value, machine => .ok value machine
  | .error fault, machine => .error (.fault fault) machine

theorem ended_injective
    {outcome other : Except Fault α}
    {machine later : Machine}
    (same : ended outcome machine = ended other later) :
    outcome = other ∧ machine = later := by
  cases outcome <;> cases other <;> cases same <;> exact ⟨rfl, rfl⟩

/-- The work ends on the machine with the outcome, and the machine that it leaves stands
for the state in the context. -/
def Gives (context : Context) (work : Run α) (machine : Machine) (outcome : Except Fault α)
    (state : State) : Prop :=
  ∃ later, work machine = ended outcome later ∧ Represents context state later ∧
    machine.arena ≤ later.arena

namespace Gives

variable {context : Context} {machine : Machine} {state later : State} {work : Run α}

/-- Work that leaves the machine as it is. -/
theorem still
    (represents : Represents context state machine)
    {outcome : Except Fault α}
    (ends : work machine = ended outcome machine) :
    Gives context work machine outcome state :=
  ⟨machine, ends, represents, Tree.Arena.le_refl _⟩

theorem pure (represents : Represents context state machine) (value : α) :
    Gives context (Pure.pure value) machine (.ok value) state :=
  still represents rfl

theorem fail (represents : Represents context state machine) (cause : Cause) (token : Token) :
    Gives context (Run.fail cause token : Run α) machine (.error (Fault.atToken cause token))
      state :=
  still represents rfl

/-- Work gives what the work does that it is the same as. -/
theorem of_eq
    {other : Run α}
    {outcome : Except Fault α}
    (same : work machine = other machine)
    (gives : Gives context other machine outcome state) :
    Gives context work machine outcome state := by
  unfold Gives
  rw [same]
  exact gives

/-- What comes after work that succeeds gives what the whole gives. -/
theorem bind
    {value : α}
    {next : α → Run β}
    {outcome : Except Fault β}
    (first : Gives context work machine (.ok value) state)
    (second : ∀ between, Represents context state between → machine.arena ≤ between.arena →
      Gives context (next value) between outcome later) :
    Gives context (work >>= next) machine outcome later := by
  obtain ⟨between, ends, represents, before⟩ := first
  obtain ⟨last, lastEnds, lastRepresents, after⟩ := second between represents before
  exact ⟨last, (Run.bind_of_ok ends).trans lastEnds, lastRepresents,
    Tree.Arena.le_trans before after⟩

/-- A fault ends the whole. -/
theorem bind_error
    {fault : Fault}
    {next : α → Run β}
    (first : Gives context work machine (.error fault) state) :
    Gives context (work >>= next) machine (.error fault) state := by
  obtain ⟨between, ends, represents, before⟩ := first
  exact ⟨between, Run.bind_of_error ends, represents, before⟩

/-- Work is followed by what depends on its value and leaves the machine as it is. -/
theorem bind_still
    {outcome : Except Fault α}
    {next : α → Run β}
    {continuation : α → Except Fault β}
    (first : Gives context work machine outcome state)
    (second : ∀ value between, Represents context state between →
      next value between = ended (continuation value) between) :
    Gives context (work >>= next) machine (outcome.bind continuation) state := by
  cases outcome with
  | ok value =>
      exact first.bind fun between represents _ => still represents (second _ _ represents)
  | error fault => exact first.bind_error

theorem map
    {outcome : Except Fault α}
    (first : Gives context work machine outcome state)
    (change : α → β) :
    Gives context (work >>= fun value => Pure.pure (change value)) machine (outcome.map change)
      state := by
  cases outcome with
  | ok value => exact first.bind fun between represents _ => pure represents _
  | error fault => exact first.bind_error

end Gives

namespace Represents

variable {context : Context} {state : State} {machine : Machine}

/-! ## What a machine and its state have in common -/

theorem scope_eq (represents : Represents context state machine) :
    machine.scope = context.scope :=
  congrArg Context.scope represents.context

theorem depth_eq (represents : Represents context state machine) :
    machine.depth = context.depth :=
  congrArg Context.depth represents.context

theorem base_eq (represents : Represents context state machine) :
    machine.base = context.base :=
  congrArg Context.base represents.context

theorem limit_eq (represents : Represents context state machine) :
    machine.limit = context.limit :=
  congrArg Context.limit represents.context

theorem libraries_eq (represents : Represents context state machine) :
    machine.libraries = context.libraries :=
  congrArg Context.libraries represents.context

/-- No machine stands for two states. -/
theorem unique
    {otherContext : Context}
    {other : State}
    (represents : Represents context state machine)
    (otherRepresents : Represents otherContext other machine) :
    state = other := by
  have functions : state.functions = other.functions := by
    apply Array.ext_getElem?
    intro id
    have first := represents.functions id
    have second := otherRepresents.functions id
    generalize machine.store.callable? id = callable at first second
    generalize state.functions[id]? = definition at first
    generalize other.functions[id]? = otherDefinition at second
    cases first with
    | none =>
        cases second with
        | none => rfl
    | some denotes =>
        cases second with
        | some otherDenotes => rw [denotes.unique otherDenotes]
  have frames := represents.frames.symm.trans otherRepresents.frames
  have arrays := represents.arrays.symm.trans otherRepresents.arrays
  have host := represents.host.symm.trans otherRepresents.host
  cases state
  cases other
  subst functions frames arrays host
  rfl

theorem elements_eq (represents : Represents context state machine) (id : ArrayId) :
    machine.store.elements id = state.elements id := by
  unfold State.elements State.store Store.elements
  rw [represents.arrays]

theorem lookup_eq (represents : Represents context state machine) (scope : Scope) (name : String) :
    machine.store.lookup scope name = state.store.lookup scope name := by
  unfold Store.lookup Store.bindings
  rw [represents.frames]
  rfl

theorem holder?_eq (represents : Represents context state machine) (scope : Scope) (name : String) :
    machine.store.holder? scope name = state.store.holder? scope name := by
  unfold Store.holder? Store.bindings
  rw [represents.frames]
  rfl

theorem text_eq (represents : Represents context state machine) (value : Value) :
    machine.store.text value = state.text value := by
  refine (Store.text_congr represents.arrays.symm (fun id => ?_) value).symm
  change ((state.functions.map Definition.outline)[id]?).map Callable.description = _
  rw [Array.getElem?_map, Option.map_map]
  exact Machine.map_eq_of_rel (represents.functions id) fun denotes => denotes.description_eq

theorem callable?_of_none
    (represents : Represents context state machine)
    {id : CallableId}
    (absent : state.functions[id]? = none) :
    machine.store.callable? id = none := by
  have related := represents.functions id
  rw [absent] at related
  generalize machine.store.callable? id = found at related ⊢
  cases related
  rfl

theorem callable?_of_some
    (represents : Represents context state machine)
    {id : CallableId}
    {definition : Definition}
    (present : state.functions[id]? = some definition) :
    ∃ callable, machine.store.callable? id = some callable ∧
      Denotes machine.arena callable definition := by
  have related := represents.functions id
  rw [present] at related
  generalize machine.store.callable? id = found at related ⊢
  cases related with
  | some denotes => exact ⟨_, rfl, denotes⟩

/-! ## Other contexts -/

theorem within (represents : Represents context state machine) (scope : Scope) :
    Represents (context.within scope) state { machine with scope := scope } :=
  ⟨congrArg (Context.within · scope) represents.context, represents.frames, represents.arrays,
    represents.count, represents.functions, represents.host⟩

theorem inCall (represents : Represents context state machine) :
    Represents context.inCall state { machine with depth := machine.depth + 1 } :=
  ⟨congrArg Context.inCall represents.context, represents.frames, represents.arrays,
    represents.count, represents.functions, represents.host⟩

theorem atTop (represents : Represents context state machine) :
    Represents context.atTop state
      { machine with scope := Scope.global, base := machine.depth } :=
  ⟨congrArg Context.atTop represents.context, represents.frames, represents.arrays,
    represents.count, represents.functions, represents.host⟩

/-- A call is left. -/
theorem outOfCall
    {later : Machine}
    (represents : Represents (contextOf machine).inCall state later) :
    Represents (contextOf machine) state { later with depth := later.depth - 1 } :=
  ⟨congrArg (fun inner : Context => { inner with depth := inner.depth - 1 }) represents.context,
    represents.frames, represents.arrays, represents.count, represents.functions, represents.host⟩

/-- The top level of a program is left. -/
theorem outOfTop
    {later : Machine}
    (represents : Represents (contextOf machine).atTop state later) :
    Represents (contextOf machine) state
      { later with scope := machine.scope, base := machine.base } :=
  ⟨congrArg (fun inner : Context => { inner with scope := machine.scope, base := machine.base })
      represents.context,
    represents.frames, represents.arrays, represents.count, represents.functions, represents.host⟩

/-- Nodes may be added. -/
theorem reading
    (represents : Represents context state machine)
    {arena : Arena}
    (before : machine.arena ≤ arena) :
    Represents context state { machine with arena := arena } :=
  ⟨represents.context, represents.frames, represents.arrays, represents.count,
    fun id => Machine.rel_of_rel (represents.functions id) fun denotes => denotes.mono before,
    represents.host⟩

/-! ## The steps of a machine -/

/-- A change of the surroundings. -/
theorem asking (represents : Represents context state machine) (change : Host → Host) :
    Represents context (state.asking change) { machine with host := change machine.host } :=
  ⟨represents.context, represents.frames, represents.arrays, represents.count,
    represents.functions, congrArg change represents.host⟩

theorem bindIn
    (represents : Represents context state machine)
    (frame : FrameId)
    (name : String)
    (value : Value) :
    Represents context (state.bindIn frame name value)
      { machine with store := machine.store.bindIn frame name value } :=
  ⟨represents.context, congrArg (·.modify frame (·.bind name value)) represents.frames,
    represents.arrays, represents.count, represents.functions, represents.host⟩

theorem define
    (represents : Represents context state machine)
    (name : String)
    (value : Value) :
    Gives context (Run.define name value) machine (.ok ())
      (state.define context.scope name value) := by
  refine ⟨_, rfl, ?_, Tree.Arena.le_refl _⟩
  unfold State.define
  rw [← represents.scope_eq]
  exact represents.bindIn machine.scope.frame name value

theorem valueOf (represents : Represents context state machine) (name : Token) :
    Gives context (Run.valueOf name) machine (state.get context.scope name) state := by
  refine .still represents ?_
  unfold Run.valueOf State.get Store.get
  rw [represents.scope_eq, represents.lookup_eq]
  cases state.store.lookup context.scope name.lexeme <;> rfl

theorem assign
    (represents : Represents context state machine)
    {name : Token}
    {value : Value}
    {later : State}
    (assigned : state.assign context.scope name value = .ok later) :
    Gives context (Run.assign name value) machine (.ok ()) later := by
  have sameHolder : machine.store.holder? machine.scope name.lexeme =
      state.store.holder? context.scope name.lexeme := by
    rw [represents.scope_eq, represents.holder?_eq]
  unfold State.assign at assigned
  cases found : state.store.holder? context.scope name.lexeme with
  | none => simp [found] at assigned
  | some frame =>
      simp only [found, Except.ok.injEq] at assigned
      subst assigned
      refine ⟨_, ?_, represents.bindIn frame name.lexeme value, Tree.Arena.le_refl _⟩
      unfold Run.assign
      rw [sameHolder, found]
      rfl

theorem assign_error
    (represents : Represents context state machine)
    {name : Token}
    {value : Value}
    {fault : Fault}
    (unassigned : state.assign context.scope name value = .error fault) :
    Gives context (Run.assign name value) machine (.error fault) state := by
  refine .still represents ?_
  unfold State.assign at unassigned
  unfold Run.assign
  rw [represents.scope_eq, represents.holder?_eq]
  cases found : state.store.holder? context.scope name.lexeme with
  | none =>
      simp only [found, Except.error.injEq] at unassigned
      subst unassigned
      rfl
  | some frame => simp [found] at unassigned

theorem foldl_bindIn
    (represents : Represents context state machine)
    (frame : FrameId)
    (bindings : List (String × Value)) :
    Represents context
      (bindings.foldl (fun later binding => later.bindIn frame binding.1 binding.2) state)
      { machine with
        store := bindings.foldl (fun store binding => store.bindIn frame binding.1 binding.2)
          machine.store } := by
  induction bindings generalizing state machine with
  | nil => exact represents
  | cons binding rest inductionHypothesis =>
      exact inductionHypothesis (represents.bindIn frame binding.1 binding.2)

theorem newScope
    (represents : Represents context state machine)
    (outer : Scope)
    (bindings : List (String × Value)) :
    Gives context (Run.newScope outer bindings) machine (.ok (state.inside outer))
      (state.enter bindings) := by
  have added : Represents context { state with frames := state.frames.push [] }
      { machine with store := machine.store.addFrame } :=
    ⟨represents.context, congrArg (·.push []) represents.frames, represents.arrays,
      represents.count, represents.functions, represents.host⟩
  have next : machine.store.nextFrame = state.frames.size := congrArg Array.size represents.frames
  refine ⟨_, ?_, added.foldl_bindIn state.frames.size bindings, Tree.Arena.le_refl _⟩
  unfold Run.newScope State.inside
  rw [next]
  rfl

theorem newArray (represents : Represents context state machine) (items : Array Value) :
    Gives context (Run.newArray items) machine (.ok (.array state.arrays.size))
      (state.addArray items) := by
  have next : machine.store.nextArray = state.arrays.size := congrArg Array.size represents.arrays
  refine ⟨{ machine with store := machine.store.addArray items }, ?_, ?_, Tree.Arena.le_refl _⟩
  · unfold Run.newArray
    rw [next]
    rfl
  · exact ⟨represents.context, represents.frames, congrArg (·.push items) represents.arrays,
      represents.count, represents.functions, represents.host⟩

theorem pushElement
    (represents : Represents context state machine)
    (id : ArrayId)
    (value : Value) :
    Gives context (Run.changeStore (·.pushElement id value)) machine (.ok ())
      (state.pushElement id value) :=
  ⟨_, rfl, ⟨represents.context, represents.frames,
    congrArg (·.modify id (·.push value)) represents.arrays, represents.count,
    represents.functions, represents.host⟩, Tree.Arena.le_refl _⟩

theorem newCallable
    (represents : Represents context state machine)
    {callable : Callable}
    {definition : Definition}
    (denotes : Denotes machine.arena callable definition) :
    Gives context (Run.newCallable callable) machine (.ok (.callable state.functions.size))
      (state.addFunction definition) := by
  have next : machine.store.nextCallable = state.functions.size := represents.count
  refine ⟨{ machine with store := machine.store.addCallable callable }, ?_, ?_,
    Tree.Arena.le_refl _⟩
  · unfold Run.newCallable
    rw [next]
    rfl
  · refine ⟨represents.context, represents.frames, represents.arrays, ?_, fun id => ?_,
      represents.host⟩
    · simp [Store.addCallable, State.addFunction, represents.count]
    · have related := represents.functions id
      unfold Store.callable? at related ⊢
      simp only [Store.addCallable, State.addFunction, Array.getElem?_push, represents.count]
      by_cases last : id = state.functions.size
      · simp only [last, if_true]
        exact .some denotes
      · simp only [last, if_false]
        exact related

theorem textOf (represents : Represents context state machine) (value : Value) :
    Gives context (Run.textOf value) machine (.ok (state.text value)) state :=
  .still represents (congrArg (EStateM.Result.ok · machine) (represents.text_eq value))

theorem elementsOf (represents : Represents context state machine) (id : ArrayId) :
    Gives context (Run.elementsOf id) machine (.ok (state.elements id)) state :=
  .still represents (congrArg (EStateM.Result.ok · machine) (represents.elements_eq id))

theorem write
    (represents : Represents context state machine)
    {text : String}
    {token : Token}
    {later : State}
    (written : state.write text token = .ok later) :
    Gives context (Run.write text token) machine (.ok ()) later := by
  unfold State.write at written
  unfold Gives Run.write
  rw [represents.host]
  cases sink : state.host.sink with
  | refusingText reason => simp [sink] at written
  | accepting =>
      simp only [sink, Except.ok.injEq] at written
      subst written
      exact ⟨_, rfl, represents.host ▸ represents.asking (·.append text), Tree.Arena.le_refl _⟩
  | refusingFlush reason =>
      simp only [sink, Except.ok.injEq] at written
      subst written
      exact ⟨_, rfl, represents.host ▸ represents.asking (·.append text), Tree.Arena.le_refl _⟩

theorem write_error
    (represents : Represents context state machine)
    {text : String}
    {token : Token}
    {fault : Fault}
    (unwritten : state.write text token = .error fault) :
    Gives context (Run.write text token) machine (.error fault) state := by
  refine .still represents ?_
  unfold State.write at unwritten
  unfold Run.write
  rw [represents.host]
  cases sink : state.host.sink with
  | refusingText reason =>
      simp only [sink, Except.error.injEq] at unwritten
      subst unwritten
      rfl
  | accepting => simp [sink] at unwritten
  | refusingFlush reason => simp [sink] at unwritten

theorem flush (represents : Represents context state machine) :
    Gives context Run.flush machine state.flush state := by
  refine .still represents ?_
  unfold Run.flush State.flush
  rw [represents.host]
  cases state.host.flush <;> rfl

end Represents

/-! ## Work inside other work -/

namespace Gives

variable {context : Context} {machine : Machine} {state : State} {work : Run α}
  {outcome : Except Fault α}

theorem inScope
    {scope : Scope}
    (inside : Gives (context.within scope) work { machine with scope := scope } outcome state)
    (before : contextOf machine = context) :
    Gives context (Run.inScope scope work) machine outcome state := by
  obtain ⟨later, ends, represents, after⟩ := inside
  refine ⟨{ later with scope := machine.scope }, ?_, ?_, after⟩
  · unfold Run.inScope
    simp only [ends]
    cases outcome <;> rfl
  · subst before
    exact represents.within machine.scope

theorem inCall
    {token : Token}
    (inside : Gives context.inCall work { machine with depth := machine.depth + 1 } outcome state)
    (before : contextOf machine = context) :
    Gives context (Run.inCall token work) machine (outcome.mapError (·.orAt token)) state := by
  obtain ⟨later, ends, represents, after⟩ := inside
  refine ⟨{ later with depth := later.depth - 1 }, ?_, ?_, after⟩
  · unfold Run.inCall
    simp only [ends]
    cases outcome <;> rfl
  · subst before
    exact represents.outOfCall

theorem atTopLevel
    (inside : Gives context.atTop work
      { machine with scope := Scope.global, base := machine.depth } outcome state)
    (before : contextOf machine = context) :
    Gives context (Run.atTopLevel work) machine outcome state := by
  obtain ⟨later, ends, represents, after⟩ := inside
  refine ⟨{ later with scope := machine.scope, base := machine.base }, ?_, ?_, after⟩
  · unfold Run.atTopLevel
    simp only [ends]
    cases outcome <;> rfl
  · subst before
    exact represents.outOfTop

theorem attempt (first : Gives context work machine outcome state) :
    Gives context (Run.attempt work) machine (.ok outcome) state := by
  obtain ⟨later, ends, represents, after⟩ := first
  refine ⟨later, ?_, represents, after⟩
  unfold Run.attempt
  rw [ends]
  cases outcome <;> rfl

end Gives

end Meaning
end Scripting
