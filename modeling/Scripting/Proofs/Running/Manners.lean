import Scripting.Proofs.Running.Discipline
import Scripting.Proofs.Running.Uncounted

/-!
# What work does by itself

Work goes on by errands; what it does by itself, before, between and after them, is little.
It leaves all arrays and functions as they are (`Store.KeepsPlaces`), unless it is the work of
the function that adds an element, and a fault with which it ends by itself is one of a few
that belong to the node that it is the work of (`Tree.Node.Fails`).  A `Manner` says which of
this some work may do, and `Tame` work keeps all arrays and ends with known faults only.

Main statements: `Tame.binaryValue`, `Tame.elementAt`, `Tame.answer`.
-/

namespace Scripting

open Tree (Node)

variable {α β : Type}

/-! ## Arrays and functions -/

/-- The arrays and the functions of the one store are in the other one, in the same places, and
the arrays have the same elements. -/
structure Store.KeepsPlaces (store later : Store) : Prop where
  arrays : store.arrays.toList <+: later.arrays.toList
  callables : store.callables.toList <+: later.callables.toList

namespace Store.KeepsPlaces

variable {store between later : Store}

theorem of_eq
    (arrays : later.arrays = store.arrays)
    (callables : later.callables = store.callables) :
    store.KeepsPlaces later :=
  ⟨arrays ▸ List.prefix_refl _, callables ▸ List.prefix_refl _⟩

theorem refl (store : Store) : store.KeepsPlaces store :=
  .of_eq rfl rfl

theorem trans (first : store.KeepsPlaces between) (second : between.KeepsPlaces later) :
    store.KeepsPlaces later :=
  ⟨first.arrays.trans second.arrays, first.callables.trans second.callables⟩

end Store.KeepsPlaces

/-- Binding names leaves the arrays as they are. -/
theorem Store.arrays_foldl_bindIn
    (frame : FrameId)
    (bindings : List (String × Value))
    (store : Store) :
    (bindings.foldl (fun store binding => store.bindIn frame binding.1 binding.2)
      store).arrays = store.arrays := by
  induction bindings generalizing store with
  | nil => rfl
  | cons binding rest inductionHypothesis => exact inductionHypothesis _

/-! ## Faults -/

/-- The operators that need numbers on both sides. -/
def Token.numeric : List Token.Kind :=
  [.minus, .star, .slash, .greater, .greaterEqual, .less, .lessEqual]

/-- The causes for which the work of a node may fail by itself, blaming its token. -/
inductive Tree.Node.Fails (node : Node) : Cause → Prop
  | unbound : node.kind = .variable ∨ node.kind = .assignment →
      Fails node (.undefinedVariable node.token.lexeme)
  | operand : node.kind = .unary → node.token.kind = .minus → Fails node .operandNotNumber
  | operands : node.kind = .binary → node.token.kind ∈ Token.numeric →
      Fails node .operandsNotNumbers
  | addends : node.kind = .binary → node.token.kind = .plus → Fails node .operandsNotAddable
  | divisor : node.kind = .binary → node.token.kind = .slash → Fails node .divisionByZero
  | target : node.kind = .call → Fails node .notCallable
  | arity (wanted given : Nat) : node.kind = .call → Fails node (.wrongArity wanted given)
  | tooDeep : node.kind = .call → Fails node .callsTooDeep
  | notArray (typeName : String) : node.kind = .index → Fails node (.notIndexable typeName)
  | position : node.kind = .index → Fails node .indexNotNumber
  | outside (index : Int) (length : Nat) :
      node.kind = .index → Fails node (.indexOutOfBounds index length)
  | noFunction : node.kind = .giveBack → Fails node .returnOutsideFunction
  | output (reason : String) :
      node.kind = .echo → Fails node (.transfer ("cannot write output: " ++ reason))

/-- The fault of a built-in function that does not do its task. -/
def Builtin.refusal (given : Builtin) (reason : String) : Fault :=
  Fault.ofCause (.refusal (given.name ++ "(): " ++ reason)) none

/-! ## Manners -/

/-- What some work may do by itself. -/
structure Manner where
  /-- Whether it may add elements to arrays. -/
  pushes : Prop
  /-- Whether it may use up the bound. -/
  tires : Prop
  /-- With which faults it may end. -/
  fails : Fault → Prop

namespace Manner

variable {manner : Manner} {machine between later : Machine}

/-- By itself the work may change the arrays of the one machine to those of the other. -/
def Keeps (manner : Manner) (machine later : Machine) : Prop :=
  manner.pushes ∨ machine.store.KeepsPlaces later.store

theorem Keeps.refl (machine : Machine) : manner.Keeps machine machine :=
  .inr (.refl machine.store)

theorem Keeps.trans (first : manner.Keeps machine between) (second : manner.Keeps between later) :
    manner.Keeps machine later := by
  obtain pushes | first := first
  · exact .inl pushes
  · exact second.imp_right first.trans

/-- The work may fail for the node. -/
def Blames (manner : Manner) (node : Node) : Prop :=
  ∀ cause, node.Fails cause → manner.fails (Fault.atToken cause node.token)

/-- The work may end so by itself that began on the machine. -/
structure Allows
    (manner : Manner)
    (machine : Machine)
    (ending : EStateM.Result Interrupt Machine α) : Prop where
  keeps : manner.Keeps machine (machineAfter ending)
  tires : ∀ later, ending = .error .exhausted later → manner.tires
  fails : ∀ fault later, ending = .error (.fault fault) later → manner.fails fault

namespace Allows

theorem ok (keeps : manner.Keeps machine later) (value : α) :
    manner.Allows machine (.ok value later) where
  keeps := keeps
  tires _ ended := by cases ended
  fails _ _ ended := by cases ended

theorem fault
    {fault : Fault}
    (keeps : manner.Keeps machine later)
    (fails : manner.fails fault) :
    manner.Allows machine (.error (.fault fault) later : EStateM.Result Interrupt Machine α) where
  keeps := keeps
  tires _ ended := by cases ended
  fails := by
    rintro _ _ ⟨⟩
    exact fails

theorem of_keeps
    {ending : EStateM.Result Interrupt Machine α}
    (allows : manner.Allows between ending)
    (keeps : manner.Keeps machine between) :
    manner.Allows machine ending :=
  ⟨keeps.trans allows.keeps, allows.tires, allows.fails⟩

/-- An interrupt is one whatever the result would have been. -/
theorem interrupted
    {interrupt : Interrupt}
    (allows : manner.Allows machine
      (.error interrupt later : EStateM.Result Interrupt Machine α)) :
    manner.Allows machine (.error interrupt later : EStateM.Result Interrupt Machine β) where
  keeps := allows.keeps
  tires := by
    rintro _ ⟨⟩
    exact allows.tires later rfl
  fails := by
    rintro fault _ ⟨⟩
    exact allows.fails fault later rfl

theorem inScope
    {ending : EStateM.Result Interrupt Machine α}
    (allows : manner.Allows machine ending)
    (scope : Scope) :
    manner.Allows machine (resultIn scope ending) := by
  cases ending with
  | ok value later =>
      have kept : manner.Keeps machine { later with scope := scope } := allows.keeps
      exact .ok kept value
  | error interrupt later =>
      exact ⟨allows.keeps, fun _ ended => by cases ended; exact allows.tires later rfl,
        fun fault _ ended => by cases ended; exact allows.fails fault later rfl⟩

end Allows
end Manner

/-! ## Tame work -/

/-- The work keeps all arrays, and ends with such faults only. -/
structure Tame (fails : Fault → Prop) (work : Run α) : Prop where
  keeps (machine : Machine) : machine.store.KeepsPlaces (machineAfter (work machine)).store
  fails {machine later : Machine} {fault : Fault} :
    work machine = .error (.fault fault) later → fails fault

namespace Tame

variable {fails : Fault → Prop} {work : Run α}

/-- Work that always succeeds and leaves the arrays where they are. -/
theorem of_ok
    (ends : ∀ machine, ∃ value later, work machine = .ok value later ∧
      machine.store.KeepsPlaces later.store) :
    Tame fails work where
  keeps machine := by
    obtain ⟨value, later, same, keeps⟩ := ends machine
    rwa [same]
  fails {machine later fault} ended := by
    obtain ⟨value, later, same, -⟩ := ends machine
    cases same.symm.trans ended

theorem pure (value : α) : Tame fails (Pure.pure value) :=
  of_ok fun machine => ⟨value, machine, rfl, .refl machine.store⟩

theorem fail
    {cause : Cause}
    {token : Token}
    (known : fails (Fault.atToken cause token)) :
    Tame fails (Run.fail cause token : Run α) where
  keeps machine := .refl machine.store
  fails := by
    rintro _ _ _ ⟨⟩
    exact known

theorem bind
    {next : α → Run β}
    (first : Tame fails work)
    (second : ∀ value, Tame fails (next value)) :
    Tame fails (work >>= next) where
  keeps machine := by
    have before := first.keeps machine
    cases ends : work machine with
    | ok value between =>
        rw [ends] at before
        rw [Run.bind_of_ok ends]
        exact before.trans ((second value).keeps between)
    | error interrupt between =>
        rw [ends] at before
        rwa [Run.bind_of_error ends]
  fails {machine later fault} ended := by
    cases ends : work machine with
    | ok value between =>
        rw [Run.bind_of_ok ends] at ended
        exact (second value).fails ended
    | error interrupt between =>
        rw [Run.bind_of_error ends] at ended
        cases ended
        exact first.fails ends

theorem textOf (value : Value) : Tame fails (Run.textOf value) :=
  of_ok fun machine => ⟨_, machine, rfl, .refl machine.store⟩

theorem elementsOf (id : ArrayId) : Tame fails (Run.elementsOf id) :=
  of_ok fun machine => ⟨_, machine, rfl, .refl machine.store⟩

/-- A new array comes after those that there are. -/
theorem newArray (items : Array Value) : Tame fails (Run.newArray items) := by
  refine of_ok fun machine => ⟨_, _, rfl, ?_⟩
  exact ⟨by simp [Store.addArray], List.prefix_refl _⟩

theorem define (name : String) (value : Value) : Tame fails (Run.define name value) :=
  of_ok fun _ => ⟨_, _, rfl, .of_eq rfl rfl⟩

/-- A new function comes after those that there are. -/
theorem declareFunction (node : Node) : Tame fails (Steps.declareFunction node) := by
  refine of_ok fun machine => ⟨_, _, rfl, List.prefix_refl _, ?_⟩
  simp [Store.addCallable, Store.bindIn]

theorem valueOf
    {name : Token}
    (unbound : fails (Fault.atToken (.undefinedVariable name.lexeme) name)) :
    Tame fails (Run.valueOf name) where
  keeps machine := by
    unfold Run.valueOf
    split <;> exact .refl machine.store
  fails {machine later fault} ended := by
    unfold Run.valueOf Store.get at ended
    cases found : machine.store.lookup machine.scope name.lexeme with
    | some value => simp [found] at ended
    | none =>
        simp only [found] at ended
        cases ended
        exact unbound

theorem assign
    {name : Token}
    (unbound : fails (Fault.atToken (.undefinedVariable name.lexeme) name))
    (value : Value) :
    Tame fails (Run.assign name value) where
  keeps machine := by
    unfold Run.assign
    split
    · exact .of_eq rfl rfl
    · exact .refl machine.store
  fails {machine later fault} ended := by
    unfold Run.assign at ended
    split at ended
    · cases ended
    · cases ended
      exact unbound

theorem write
    {token : Token}
    (refused : ∀ reason,
      fails (Fault.atToken (.transfer ("cannot write output: " ++ reason)) token))
    (text : String) :
    Tame fails (Run.write text token) where
  keeps machine := by
    unfold Run.write
    split <;> exact .refl _
  fails {machine later fault} ended := by
    unfold Run.write at ended
    split at ended
    · cases ended
      exact refused _
    · cases ended

/-! ## Operators -/

theorem unaryValue
    {operator : Token}
    (failing : operator.kind = .minus → fails (Fault.atToken .operandNotNumber operator))
    (operand : Value) :
    Tame fails (Steps.unaryValue operator operand) := by
  unfold Steps.unaryValue
  split
  next isMinus => cases operand <;> first | exact pure _ | exact fail (failing isMinus)
  · exact pure _
  · exact pure _

theorem numbers
    {operator : Token}
    (failing : fails (Fault.atToken .operandsNotNumbers operator))
    (left right : Value) :
    Tame fails (Steps.numbers operator left right) := by
  unfold Steps.numbers
  split
  · exact pure _
  · exact fail failing

theorem sum
    {operator : Token}
    (failing : fails (Fault.atToken .operandsNotAddable operator))
    (left right : Value) :
    Tame fails (Steps.sum operator left right) := by
  unfold Steps.sum
  split
  · exact pure _
  · exact (textOf _).bind fun _ => (textOf _).bind fun _ => pure _
  · exact (textOf _).bind fun _ => (textOf _).bind fun _ => pure _
  · exact fail failing

theorem quotient
    {operator : Token}
    (operands : fails (Fault.atToken .operandsNotNumbers operator))
    (divisor : fails (Fault.atToken .divisionByZero operator))
    (left right : Value) :
    Tame fails (Steps.quotient operator left right) := by
  refine (numbers operands left right).bind fun pair => ?_
  dsimp only
  split
  · exact fail divisor
  · exact pure _

theorem binaryValue
    {operator : Token}
    (operands : operator.kind ∈ Token.numeric →
      fails (Fault.atToken .operandsNotNumbers operator))
    (addends : operator.kind = .plus → fails (Fault.atToken .operandsNotAddable operator))
    (divisor : operator.kind = .slash → fails (Fault.atToken .divisionByZero operator))
    (left right : Value) :
    Tame fails (Steps.binaryValue operator left right) := by
  have ofNumbers (kind : operator.kind ∈ Token.numeric) (value : Float × Float → Value) :
      Tame fails (Steps.numbers operator left right >>= fun pair =>
        (Pure.pure (value pair) : Run Value)) :=
    (numbers (operands kind) left right).bind fun _ => pure _
  unfold Steps.binaryValue
  split <;> rename_i kind
  case h_3 => exact sum (addends kind) left right
  case h_6 => exact quotient (operands (by rw [kind]; decide)) (divisor kind) left right
  case h_1 | h_2 | h_11 => exact pure _
  all_goals exact ofNumbers (by rw [kind]; decide) _

theorem elementAt
    {bracket : Token}
    (notArray : ∀ typeName, fails (Fault.atToken (.notIndexable typeName) bracket))
    (position : fails (Fault.atToken .indexNotNumber bracket))
    (outside : ∀ index length, fails (Fault.atToken (.indexOutOfBounds index length) bracket))
    (target index : Value) :
    Tame fails (Steps.elementAt bracket target index) := by
  unfold Steps.elementAt
  cases target with
  | array id =>
      cases index with
      | number number =>
          refine (elementsOf id).bind fun items => ?_
          dsimp only
          split
          · exact pure _
          · exact fail (outside _ _)
      | _ => exact fail position
  | _ => exact fail (notArray _)

/-! ## Built-in functions -/

theorem of_asksForFiles (asks : AsksForFiles work) : Tame fails work := by
  refine of_ok fun machine => ?_
  obtain ⟨result, wishes, ends⟩ := asks machine
  exact ⟨result, _, ends, .of_eq rfl rfl⟩

theorem readFile (path : Value) : Tame fails (Builtin.readFile path) := by
  unfold Builtin.readFile
  cases Builtin.pathOf path with
  | error reason => exact pure _
  | ok path => exact (of_asksForFiles (.readText path)).bind fun text => pure _

theorem writeFile (path value : Value) : Tame fails (Builtin.writeFile path value) := by
  unfold Builtin.writeFile
  cases Builtin.pathOf path with
  | error reason => exact pure _
  | ok path =>
      refine (textOf value).bind fun text =>
        (of_asksForFiles (.seekFiles path)).bind fun files => ?_
      cases files.write path text with
      | error problem => exact pure _
      | ok changed => exact of_ok fun _ => ⟨_, _, rfl, .of_eq rfl rfl⟩

/-- A built-in function that neither runs a program nor calls a function keeps all arrays,
unless it adds an element to one. -/
theorem answer
    {action : Action}
    (runsNothing : action ≠ .runFile)
    (callsNothing : action ≠ .apply)
    (pushesNothing : action ≠ .push)
    (steps : Steps)
    (arguments : List Value) :
    Tame fails (Builtin.answer steps action arguments) := by
  have unchanged {α : Type} {work : Run α}
      (ends : ∀ machine, ∃ value later, work machine = .ok value later ∧
        later.store = machine.store) : Tame fails work :=
    of_ok fun machine =>
      let ⟨value, later, same, store⟩ := ends machine
      ⟨value, later, same, store ▸ .refl _⟩
  cases action with
  | runFile => exact absurd rfl runsNothing
  | apply => exact absurd rfl callsNothing
  | push => exact absurd rfl pushesNothing
  | clock => exact unchanged fun _ => ⟨_, _, rfl, rfl⟩
  | «variable» =>
      change Tame fails (Builtin.systemVariable (arguments.headD .null))
      cases arguments.headD .null <;> exact unchanged fun _ => ⟨_, _, rfl, rfl⟩
  | size =>
      change Tame fails (Builtin.size (arguments.headD .null))
      cases arguments.headD .null <;> exact unchanged fun _ => ⟨_, _, rfl, rfl⟩
  | trim => exact pure _
  | split =>
      change Tame fails (Builtin.split (arguments.headD .null) (arguments.tail.headD .null))
      unfold Builtin.split
      split <;> exact (newArray _).bind fun array => pure _
  | text => exact (textOf _).bind fun text => pure _
  | typeName => exact pure _
  | readFile => exact readFile _
  | writeFile => exact writeFile _ _
  | refuse => exact (textOf _).bind fun text => pure _

end Tame

section Perform

variable {steps : Steps} {given : Builtin} {arguments : List Value}

/-- Whether or not it does its task, a built-in function leaves what its answer leaves. -/
theorem Builtin.keepsPlaces_perform
    (answers : Tame (fun _ => True) (answer steps given.action arguments))
    (machine : Machine) :
    machine.store.KeepsPlaces (machineAfter (perform steps given arguments machine)).store := by
  have tame : Tame (fun _ => True) (perform steps given arguments) := by
    refine answers.bind fun result => ?_
    cases result with
    | ok value => exact .pure value
    | error reason => exact ⟨fun machine => .refl machine.store, fun _ => trivial⟩
  exact tame.keeps machine

/-- A built-in function that comes to an answer fails only by refusing its task. -/
theorem Answers.exists_refusal
    (answers : Answers (Builtin.answer steps given.action arguments))
    {machine later : Machine}
    {fault : Fault}
    (failed : Builtin.perform steps given arguments machine = .error (.fault fault) later) :
    ∃ reason, fault = given.refusal reason := by
  obtain ⟨result, between, ends⟩ := answers machine
  unfold Builtin.perform at failed
  rw [Run.bind_of_ok ends] at failed
  cases result with
  | ok value => cases failed
  | error reason =>
      cases failed
      exact ⟨reason, rfl⟩

end Perform
end Scripting
