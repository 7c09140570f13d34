import Scripting.Proofs.Running.Calls
import Scripting.Proofs.Running.Chronicles
import Scripting.Proofs.Running.Forests
import Scripting.Proofs.Running.TopLevel

/-!
# Aliases

A value goes from one place to another when a name is read, declared or assigned, when it is
an element of a literal, an argument, given back, added to an array or found in one.
`Activity.Copies` says of an errand which value it takes up and what is found where it has put
it: for an argument, under the name of the parameter where the body of the function begins.
What is found is always the value itself (`Activity.Copies.eq_some`), so that an array or a
function, wherever it has gone, is the one that it was.

Main statements: `Activity.Copies.eq_some`, `Happening.Aliases.eq`.
-/

namespace Scripting

open Tree (Node)

/-! ## Names -/

namespace Store

variable {store : Store} {frame : FrameId} {name : String}

/-- Names that are bound after it leave a name as it is. -/
theorem find?_foldl_bindIn_of_not_mem
    {bindings : List (String × Value)}
    (absent : ∀ binding ∈ bindings, binding.1 ≠ name) :
    ((bindings.foldl (fun store binding => store.bindIn frame binding.1 binding.2)
      store).bindings frame).find? name = (store.bindings frame).find? name := by
  induction bindings generalizing store with
  | nil => rfl
  | cons binding rest inductionHypothesis =>
      obtain ⟨first, others⟩ := List.forall_mem_cons.mp absent
      rw [List.foldl_cons, inductionHypothesis others]
      exact store.sameBut_bindIn frame binding.1 binding.2 frame name (.inr first.symm)

/-- A name leads to what it is bound to in the innermost frame. -/
theorem lookup_of_find?
    {scope : Scope}
    {value : Value}
    (found : (store.bindings scope.frame).find? name = some value) :
    store.lookup scope name = some value := by
  rw [lookup, Scope.frames, List.findSome?_cons, found]

theorem lookup_bindIn_frame
    {scope : Scope}
    (inside : scope.frame < store.frames.size)
    (name : String)
    (value : Value) :
    (store.bindIn scope.frame name value).lookup scope name = some value :=
  lookup_of_find? (find?_bindIn inside name value)

/-- What has been assigned to a name is found under it. -/
theorem lookup_of_assign
    {later : Store}
    {scope : Scope}
    {name : Token}
    {value : Value}
    (assigned : store.assign scope name value = .ok later) :
    later.lookup scope name.lexeme = some value := by
  obtain ⟨frame, holder, same, written, binds⟩ := exists_of_assign assigned
  have still : later.holder? scope name.lexeme = some frame := by
    unfold holder? at holder ⊢
    simp only [binds]
    exact holder
  rw [lookup_of_sameBut same written, if_pos ⟨rfl, still⟩]

end Store

/-- A name leads to the last value that it is bound to when the scope is opened. -/
theorem Machine.lookup_opening
    (machine : Machine)
    (outer : Scope)
    {before after : List (String × Value)}
    {name : String}
    {value : Value}
    (absent : ∀ binding ∈ after, binding.1 ≠ name) :
    let opened := machine.opening outer (before ++ (name, value) :: after)
    opened.store.lookup opened.scope name = some value := by
  intro opened
  have inside : machine.store.nextFrame < (machine.opening outer before).store.frames.size := by
    simp [Store.nextFrame]
  have store : opened.store =
      after.foldl (fun store binding => store.bindIn machine.store.nextFrame binding.1 binding.2)
        ((machine.opening outer before).store.bindIn machine.store.nextFrame name value) :=
    List.foldl_append
  refine Store.lookup_of_find? ?_
  rw [store]
  exact (Store.find?_foldl_bindIn_of_not_mem absent).trans (Store.find?_bindIn inside name value)

/-- A parameter leads to the argument in its place, unless it is repeated. -/
theorem Machine.lookup_parameter
    (machine : Machine)
    (outer : Scope)
    {parameters : List String}
    {arguments : List Value}
    {position : Nat}
    {name : String}
    {value : Value}
    (isParameter : parameters[position]? = some name)
    (isLast : name ∉ parameters.drop (position + 1))
    (isArgument : arguments[position]? = some value) :
    let opened := machine.opening outer (parameters.zip arguments)
    opened.store.lookup opened.scope name = some value := by
  have isBound : (parameters.zip arguments)[position]? = some (name, value) := by
    simp [List.getElem?_zip_eq_some, isParameter, isArgument]
  have whole : parameters.zip arguments = (parameters.zip arguments).take position ++
      (name, value) :: (parameters.zip arguments).drop (position + 1) := by
    obtain ⟨inside, same⟩ := List.getElem?_eq_some_iff.mp isBound
    rw [← same, List.getElem_cons_drop, List.take_append_drop]
  rw [whole]
  refine machine.lookup_opening outer fun binding member same => isLast ?_
  rw [List.zip, List.drop_zipWith] at member
  rw [← same]
  exact (List.of_mem_zip member).1

/-! ## Copies -/

/-- The value of a name, in the scope of the machine. -/
def Happening.value? (happening : Happening) (name : String) : Option Value :=
  happening.machine.store.lookup happening.machine.scope name

/-- The errand takes up the value, and this is what is found where it puts it. -/
inductive Activity.Copies : Activity → Value → Option Value → Prop
  /-- A name is read. -/
  | read {id : Option Tree.NodeId} {machine : Machine} {bound : Nat} {node : Node}
      {value : Value} :
      machine.arena.node? id = some node → node.kind = .variable →
      machine.store.lookup machine.scope node.token.lexeme = some value →
        Copies ⟨⟨.evaluate id, machine⟩, bound + 1⟩ value
          (Activity.answer? ⟨⟨.evaluate id, machine⟩, bound + 1⟩)
  /-- A value is put in parentheses. -/
  | grouped {id : Option Tree.NodeId} {machine middle : Machine} {bound : Nat} {node : Node}
      {value : Value} :
      machine.arena.node? id = some node → node.kind = .group →
      (Run.within bound).evaluate (node.child 0) machine = .ok value middle →
        Copies ⟨⟨.evaluate id, machine⟩, bound + 1⟩ value
          (Activity.answer? ⟨⟨.evaluate id, machine⟩, bound + 1⟩)
  /-- A name is declared. -/
  | declared {id : Option Tree.NodeId} {machine middle : Machine} {bound : Nat} {node : Node}
      {value : Value} :
      machine.arena.node? id = some node → node.kind = .declaration →
      (Run.within bound).evaluate (node.child 0) machine = .ok value middle →
        Copies ⟨⟨.execute id, machine⟩, bound + 1⟩ value
          ((Happening.ends ⟨⟨.execute id, machine⟩, bound + 1⟩).value? node.name)
  /-- A value is assigned to a name. -/
  | assigned {id : Option Tree.NodeId} {machine middle later : Machine} {bound : Nat}
      {node : Node} {value answer : Value} :
      machine.arena.node? id = some node → node.kind = .assignment →
      (Run.within bound).evaluate (node.child 0) machine = .ok value middle →
      (Run.within (bound + 1)).evaluate id machine = .ok answer later →
        Copies ⟨⟨.evaluate id, machine⟩, bound + 1⟩ value
          ((Happening.ends ⟨⟨.evaluate id, machine⟩, bound + 1⟩).value? node.token.lexeme)
  /-- An assignment has a value itself. -/
  | assignment {id : Option Tree.NodeId} {machine middle later : Machine} {bound : Nat}
      {node : Node} {value answer : Value} :
      machine.arena.node? id = some node → node.kind = .assignment →
      (Run.within bound).evaluate (node.child 0) machine = .ok value middle →
      (Run.within (bound + 1)).evaluate id machine = .ok answer later →
        Copies ⟨⟨.evaluate id, machine⟩, bound + 1⟩ value (some answer)
  /-- An array is made with the elements of a literal. -/
  | element {id : Option Tree.NodeId} {machine middle later : Machine} {bound : Nat}
      {node : Node} {value : Value} {values : Array Value} {array : ArrayId} {position : Nat} :
      machine.arena.node? id = some node → node.kind = .array →
      (Run.within bound).evaluateAll node.children #[] machine = .ok values middle →
      values[position]? = some value →
      (Run.within (bound + 1)).evaluate id machine = .ok (.array array) later →
        Copies ⟨⟨.evaluate id, machine⟩, bound + 1⟩ value (later.store.elements array)[position]?
  /-- An element of an array is found. -/
  | indexed {id : Option Tree.NodeId} {machine first middle : Machine} {bound : Nat}
      {node : Node} {value : Value} {array : ArrayId} {number : Float} {position : Nat} :
      machine.arena.node? id = some node → node.kind = .index →
      (Run.within bound).evaluate (node.child 0) machine = .ok (.array array) first →
      (Run.within bound).evaluate (node.child 1) first = .ok (.number number) middle →
      Decimal.wholePart number = .ofNat position →
      (middle.store.elements array)[position]? = some value →
        Copies ⟨⟨.evaluate id, machine⟩, bound + 1⟩ value
          (Activity.answer? ⟨⟨.evaluate id, machine⟩, bound + 1⟩)
  /-- An element is added to the end of an array. -/
  | pushed {given : Builtin} {arguments : List Value} {machine : Machine} {bound : Nat}
      {array : ArrayId} {value : Value} :
      given.action = .push → arguments[0]? = some (.array array) → arguments[1]? = some value →
        Copies ⟨⟨.call (.builtin given) arguments, machine⟩, bound + 1⟩ value
          ((Happening.ends ⟨⟨.call (.builtin given) arguments, machine⟩, bound + 1⟩).machine.store
            |>.elements array).back?
  /-- The answer to the function that adds an element is the array. -/
  | extended {given : Builtin} {arguments : List Value} {machine : Machine} {bound : Nat}
      {array : ArrayId} :
      given.action = .push → arguments[0]? = some (.array array) →
        Copies ⟨⟨.call (.builtin given) arguments, machine⟩, bound + 1⟩ (.array array)
          (Activity.answer? ⟨⟨.call (.builtin given) arguments, machine⟩, bound + 1⟩)
  /-- A function is called with the value of an argument. -/
  | argument {id : Option Tree.NodeId} {machine first middle : Machine} {bound : Nat}
      {node : Node} {target value : Value} {values : Array Value} {position : Nat}
      {links : List Link} {link : Link} {callable : Callable} {arguments : List Value} :
      machine.arena.node? id = some node → node.kind = .call →
      (Run.within bound).evaluate (node.child 0) machine = .ok target first →
      (Run.within bound).evaluateAll node.children.tail #[] first = .ok values middle →
      values[position]? = some value →
      Activity.Begins ⟨⟨.evaluate id, machine⟩, bound + 1⟩ links → link ∈ links →
      link.moment.errand = .call callable arguments →
        Copies ⟨⟨.evaluate id, machine⟩, bound + 1⟩ value arguments[position]?
  /-- A parameter is bound to an argument when the body of the function begins. -/
  | parameter {declared : Function} {arguments : List Value} {machine : Machine} {bound : Nat}
      {first : Link} {others : List Link} {name : String} {position : Nat} {value : Value} :
      Activity.Begins ⟨⟨.call (.function declared) arguments, machine⟩, bound + 1⟩
        (first :: others) →
      declared.parameters[position]? = some name →
      name ∉ declared.parameters.drop (position + 1) →
      arguments[position]? = some value →
        Copies ⟨⟨.call (.function declared) arguments, machine⟩, bound + 1⟩ value
          ((Happening.begins ⟨first.moment, bound⟩).value? name)
  /-- A value is given back. -/
  | returned {id : Option Tree.NodeId} {machine middle : Machine} {bound : Nat} {node : Node}
      {value : Value} :
      machine.arena.node? id = some node → node.kind = .giveBack →
      machine.depth ≠ machine.base →
      (Run.within bound).evaluate (node.child 0) machine = .ok value middle →
        Copies ⟨⟨.execute id, machine⟩, bound + 1⟩ value
          (Activity.answer? ⟨⟨.execute id, machine⟩, bound + 1⟩)
  /-- What a statement gives back, or a call, goes to what it has been begun for. -/
  | passed {activity : Activity} {links : List Link} {link : Link} {value : Value} :
      activity.Begins links → link ∈ links → (∀ id, link.moment.errand ≠ .evaluate id) →
      Activity.answer? ⟨link.moment, activity.bound - 1⟩ = some value →
        Copies activity value activity.answer?

namespace Activity

theorem answer?_of_ok
    {activity : Activity}
    {answer : activity.errand.Result}
    {later : Machine}
    (ends : activity.outcome = .ok answer later) :
    activity.answer? = activity.errand.value? answer := by
  unfold answer?
  rw [ends]

end Activity

/-- However an errand ends, the current frame is one of the store. -/
theorem Moment.Sound.frame_lt {moment : Moment} (sound : moment.Sound) (bound : Nat) :
    let later := machineAfter ((Run.within bound).outcome moment)
    later.scope.frame < later.store.frames.size := by
  have obey : Regime.nested.StepsObey _ (Run.watched (fun _ _ => True) .exhausted bound) :=
    Regime.obeys_within (fun _ _ _ _ => trivial) .exhausted bound
  obtain ⟨-, around, nests⟩ := (obey.outcome sound.holds sound.fits).2.holds
  exact nests.scope.1

namespace Steps

variable {steps : Steps} {machine middle : Machine} {id : Option Tree.NodeId} {node : Node}
  {value : Value}

theorem executeNode_of_declaration
    (found : machine.arena.node? id = some node)
    (kind : node.kind = .declaration)
    (given : steps.evaluate (node.child 0) machine = .ok value middle) :
    steps.executeNode id machine = .ok .normal
      { middle with store := middle.store.bindIn middle.scope.frame node.name value } := by
  simp only [executeNode, Run.bind_of_ok (Run.node?_of_eq found), kind, Run.bind_of_ok given]
  rfl

/-- An assignment that succeeds succeeds in the store, and its value is the one assigned. -/
theorem exists_assign_of_assignment
    {answer : Value}
    {later : Machine}
    (found : machine.arena.node? id = some node)
    (kind : node.kind = .assignment)
    (given : steps.evaluate (node.child 0) machine = .ok value middle)
    (ends : steps.evaluateNode id machine = .ok answer later) :
    answer = value ∧ later.scope = middle.scope ∧
      middle.store.assign middle.scope node.token value = .ok later.store := by
  simp only [evaluateNode, Run.bind_of_ok (Run.node?_of_eq found), kind, Run.bind_of_ok given]
    at ends
  have assigns := Run.assign_eq node.token value middle
  cases assigned : middle.store.assign middle.scope node.token value with
  | error fault =>
      rw [assigned] at assigns
      rw [Run.bind_of_error assigns] at ends
      cases ends
  | ok store =>
      rw [assigned] at assigns
      rw [Run.bind_of_ok assigns] at ends
      cases ends
      exact ⟨rfl, rfl, rfl⟩

/-- A call that adds an element. -/
theorem perform_of_push
    {given : Builtin}
    {arguments : List Value}
    {array : ArrayId}
    (isPush : given.action = .push)
    (target : arguments[0]? = some (.array array)) :
    Builtin.perform steps given arguments machine = .ok (.array array)
      { machine with
        store := machine.store.pushElement array (arguments.tail.headD .null) } := by
  have isFirst : arguments.headD .null = .array array := by
    rw [List.headD_eq_head?_getD, List.head?_eq_getElem?, target]
    rfl
  have answers : Builtin.answer steps given.action arguments =
      Builtin.push (.array array) (arguments.tail.headD .null) := by
    rw [isPush, ← isFirst]
    rfl
  rw [Builtin.perform, answers]
  rfl

end Steps

namespace Activity

variable {activity : Activity} {value : Value} {found : Option Value}

theorem exists_of_answer? (answered : activity.answer? = some value) :
    ∃ answer later, activity.outcome = .ok answer later ∧
      activity.errand.value? answer = some value := by
  cases ends : activity.outcome with
  | error interrupt later =>
      unfold answer? at answered
      rw [ends] at answered
      cases answered
  | ok answer later =>
      rw [answer?_of_ok ends] at answered
      exact ⟨answer, later, rfl, answered⟩

/-- A statement that gives back a value does so where there is a function to return from. -/
theorem exists_returning
    {id : Option Tree.NodeId}
    {machine : Machine}
    {bound : Nat}
    (answered : answer? ⟨⟨.execute id, machine⟩, bound⟩ = some value) :
    machine.depth ≠ machine.base ∧ ∃ later,
      (Run.within bound).execute id machine = .ok (.returning value) later := by
  obtain ⟨flow, later, ends, given⟩ := exists_of_answer? answered
  cases flow with
  | normal => cases given
  | returning _ =>
      obtain rfl := Option.some.inj given
      refine ⟨fun top => ?_, later, ends⟩
      cases settles_within bound id machine later _ top ends

/-- The value of a call is that of the call expression. -/
theorem answer?_of_call
    {id : Option Tree.NodeId}
    {machine later : Machine}
    {bound : Nat}
    {node : Node}
    {links : List Link}
    {callable : Callable}
    {arguments : List Value}
    (found : machine.arena.node? id = some node)
    (kind : node.kind = .call)
    (room : later.depth < later.limit)
    (begins : Begins ⟨⟨.evaluate id, machine⟩, bound + 1⟩ links)
    (member : Link.ofCall node.token later callable arguments ∈ links)
    (answered : answer? ⟨(Link.ofCall node.token later callable arguments).moment, bound⟩ =
      some value) :
    answer? ⟨⟨.evaluate id, machine⟩, bound + 1⟩ = some value := by
  have calls := Moment.work_call found kind bound
  change (Run.within bound).Begins (Moment.work ⟨.evaluate id, machine⟩ bound) links at begins
  rw [calls] at begins
  obtain ⟨values, rfl, readies⟩ := begins.readies member
  obtain ⟨answer, last, ends, given⟩ := exists_of_answer? answered
  have left : outcome ⟨⟨.evaluate id, machine⟩, bound + 1⟩ =
      .ok answer { last with depth := last.depth - 1 } := by
    refine (Run.outcome_within_succ bound ⟨.evaluate id, machine⟩).trans ?_
    rw [calls]
    exact (readies.callNode_eq room).trans (congrArg (Run.callEnd node.token) ends)
  exact (answer?_of_ok left).trans given

/-- What a statement gives back, or a call, is the answer to the errand for which it has been
begun. -/
theorem answer?_of_begins
    (sound : activity.Sound)
    {links : List Link}
    {link : Link}
    (begins : activity.Begins links)
    (member : link ∈ links)
    (passes : ∀ id, link.moment.errand ≠ .evaluate id)
    (answered : answer? ⟨link.moment, activity.bound - 1⟩ = some value) :
    activity.answer? = some value := by
  obtain ⟨moment, bound⟩ := activity
  cases bound with
  | zero =>
      obtain rfl : links = [] := begins
      cases member
  | succ bound =>
      change moment.Sound at sound
      obtain ⟨others, proceeds⟩ := sound.isFit.exists_proceeds bound
      obtain ⟨other, isOther, same⟩ := Steps.Begins.exists_same_moment begins proceeds.begins member
      have leads := proceeds.leads other isOther
      have onward := proceeds.passes other isOther
      dsimp only [Nat.add_sub_cancel] at answered onward
      rw [← same] at passes answered
      cases leads with
      | operand => exact absurd rfl (passes _)
      | part | inner | body =>
          obtain ⟨inFunction, later, ends⟩ := exists_returning answered
          obtain ⟨-, result, gives, left⟩ := onward _ value later ends rfl inFunction
          rw [answer?_of_ok left]
          cases gives
          rfl
      | program =>
          obtain ⟨inFunction, -⟩ := exists_returning answered
          exact absurd rfl inFunction
      | call isNode kind _ _ _ room =>
          exact answer?_of_call isNode kind room proceeds.begins isOther answered

/-- The body of a function begins in a scope in which the parameters are bound. -/
theorem first_of_begins_call
    {declared : Function}
    {arguments : List Value}
    {machine : Machine}
    {bound : Nat}
    {first : Link}
    {others : List Link}
    (begins : Begins ⟨⟨.call (.function declared) arguments, machine⟩, bound + 1⟩
      (first :: others)) :
    first.moment.machine =
      machine.opening declared.closure (declared.parameters.zip arguments) := by
  change (Run.within bound).Begins
    (fun steps => { steps with rounds := bound }.callFunction declared arguments machine) _
    at begins
  let inner := machine.opening declared.closure (declared.parameters.zip arguments)
  cases body : machine.arena.node? declared.body with
  | none =>
      have absent : Run.node? declared.body machine = .ok none machine := by rw [Run.node?, body]
      simp only [Steps.callFunction, Run.bind_of_ok absent] at begins
      exact (begins.false_of_const (List.mem_cons_self ..)).elim
  | some node =>
      cases children : node.children with
      | nil =>
          simp only [Steps.callFunction, Run.bind_of_ok (Run.node?_of_eq body), Run.bind_eq,
            Steps.executeBlock_eq, children] at begins
          exact (begins.false_of_const (List.mem_cons_self ..)).elim
      | cons id rest =>
          suffices isFirst : first.moment = ⟨.execute id, inner⟩ by rw [isFirst]
          refine begins.first_eq fun steps later ends => ⟨{ later with scope := machine.scope }, ?_⟩
          have stops : { steps with rounds := bound }.executeBlock declared.closure
              (declared.parameters.zip arguments) node machine =
                .error .exhausted { later with scope := machine.scope } := by
            rw [Steps.executeBlock_eq, children, Steps.executeAll]
            exact congrArg (resultIn machine.scope) (Run.bind_of_error ends)
          rw [Steps.callFunction, Run.bind_of_ok (Run.node?_of_eq body)]
          exact Run.bind_of_error stops

/-- Whatever a value goes through, it is found again. -/
theorem Copies.eq_some (copies : activity.Copies value found) (sound : activity.Sound) :
    found = some value := by
  cases copies with
  | @read id machine bound node value isNode kind isBound =>
      have ends : outcome ⟨⟨.evaluate id, machine⟩, bound + 1⟩ = .ok value machine := by
        rw [outcome_evaluate]
        simp only [Steps.evaluateNode, Run.bind_of_ok (Run.node?_of_eq isNode), kind, Run.valueOf,
          Store.get, isBound]
      exact answer?_of_ok ends
  | @grouped id machine middle bound node value isNode kind given =>
      have ends : outcome ⟨⟨.evaluate id, machine⟩, bound + 1⟩ = .ok value middle := by
        rw [outcome_evaluate]
        simp only [Steps.evaluateNode, Run.bind_of_ok (Run.node?_of_eq isNode), kind, given]
      exact answer?_of_ok ends
  | @declared id machine middle bound node value isNode kind given =>
      have inside := sound.frame_lt (bound + 1)
      have ends := outcome_execute id machine bound
      rw [Steps.executeNode_of_declaration isNode kind given] at ends
      change (machineAfter (outcome _)).scope.frame < (machineAfter (outcome _)).store.frames.size
        at inside
      unfold Happening.value? Happening.machine
      dsimp only
      rw [ends] at inside ⊢
      rw [machineAfter, Store.size_bindIn] at inside
      exact Store.lookup_bindIn_frame inside node.name value
  | @assigned id machine middle later bound node value answer isNode kind given ends =>
      rw [Run.within_succ] at ends
      obtain ⟨-, scope, assigns⟩ := Steps.exists_assign_of_assignment isNode kind given ends
      unfold Happening.value? Happening.machine
      dsimp only
      rw [outcome_evaluate, show (Run.within bound).evaluateNode id machine = _ from ends,
        machineAfter, scope]
      exact Store.lookup_of_assign assigns
  | @assignment id machine middle later bound node value answer isNode kind given ends =>
      rw [Run.within_succ] at ends
      obtain ⟨rfl, -, -⟩ := Steps.exists_assign_of_assignment isNode kind given ends
      rfl
  | @element id machine middle later bound node value values array position isNode kind given
      isElement ends =>
      rw [Run.within_succ] at ends
      change (Run.within bound).evaluateNode id machine = _ at ends
      rw [Steps.evaluateNode_of_array isNode kind, Run.bind_of_ok given] at ends
      cases ends
      rw [Store.elements_addArray_nextArray, isElement]
  | @indexed id machine first middle bound node value array number position isNode kind target
      index whole isElement =>
      have finds := (@Steps.elementAt_eq_ok_iff node.token array (.number number) value middle).mpr
        ⟨number, position, rfl, whole, isElement⟩
      have ends : outcome ⟨⟨.evaluate id, machine⟩, bound + 1⟩ = .ok value middle := by
        rw [outcome_evaluate]
        simp only [Steps.evaluateNode, Run.bind_of_ok (Run.node?_of_eq isNode), kind,
          Run.bind_of_ok target, Run.bind_of_ok index, finds]
      exact answer?_of_ok ends
  | @pushed given arguments machine bound array value isPush target isElement =>
      have has : machine.store.Has (.array array) :=
        sound.complete.arguments _ arguments rfl _ (List.mem_of_getElem? target)
      have isSecond : arguments.tail.headD .null = value := by
        rw [List.headD_eq_head?_getD, List.head?_eq_getElem?, List.getElem?_tail, isElement]
        rfl
      have ends := outcome_call (.builtin given) arguments machine bound
      change _ = Builtin.perform (Run.within bound) given arguments machine at ends
      rw [Steps.perform_of_push isPush target, isSecond] at ends
      unfold Happening.machine
      dsimp only
      rw [ends, machineAfter, Store.elements_pushElement_self _ _ has, Array.back?_push]
  | @extended given arguments machine bound array isPush target =>
      have ends := outcome_call (.builtin given) arguments machine bound
      change _ = Builtin.perform (Run.within bound) given arguments machine at ends
      rw [Steps.perform_of_push isPush target] at ends
      exact answer?_of_ok ends
  | @argument id machine first middle bound node target value values position links link callable
      arguments isNode kind evaluates given isElement begins member calls =>
      change (Run.within bound).Begins (Moment.work ⟨.evaluate id, machine⟩ bound) links at begins
      rw [Moment.work_call isNode kind] at begins
      obtain ⟨_, _, rfl, ⟨⟨_, _, alsoEvaluates, alsoGiven, -⟩, -⟩, -⟩ :=
        begins.exists_readies member calls
      cases evaluates.symm.trans alsoEvaluates
      cases given.symm.trans alsoGiven
      rw [Array.getElem?_toList, isElement]
  | @parameter declared arguments machine bound first others name position value begins
      isParameter isLast isArgument =>
      unfold Happening.value? Happening.machine
      dsimp only
      rw [first_of_begins_call begins]
      exact machine.lookup_parameter declared.closure isParameter isLast isArgument
  | @returned id machine middle bound node value isNode kind inFunction given =>
      have ends : outcome ⟨⟨.execute id, machine⟩, bound + 1⟩ = .ok (.returning value) middle := by
        refine (Run.execute_giveBack isNode kind bound).trans ?_
        rw [if_neg inFunction, Run.bind_of_ok given]
        rfl
      exact answer?_of_ok ends
  | passed begins member passes answered =>
      exact answer?_of_begins sound begins member passes answered

end Activity

namespace Happening

/-- What is obtained from a value in the course of all this, in one copy after the other. -/
inductive Aliases (happenings : List Happening) (origin : Value) : Value → Prop
  | self : Aliases happenings origin origin
  | copy {activity : Activity} {other found : Value} :
      Aliases happenings origin other → .ends activity ∈ happenings →
      activity.Copies other (some found) →
        Aliases happenings origin found

/-- However often it has been copied, it is the value itself. -/
theorem Aliases.eq
    {happenings : List Happening}
    {origin other : Value}
    (aliases : Aliases happenings origin other)
    (sound : ∀ happening ∈ happenings, happening.activity.Sound) :
    other = origin := by
  induction aliases with
  | self => rfl
  | copy _ member copies inductionHypothesis =>
      exact (Option.some.inj (copies.eq_some (sound _ member))).trans inductionHypothesis

end Happening

end Scripting
