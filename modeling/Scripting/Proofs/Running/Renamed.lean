import Scripting.Proofs.Running.Guises

/-!
# Runs in other names

Each part of a run does in other words what it does, when the steps do by which it goes on;
so within any bound the steps do, and a program that is executed in other names writes the
same, with the same faults but for the names in them.

Main statements: `Guise.StepsRename.within`, `Guise.Renames.interpretWith`.
-/

namespace Scripting

open Tree (Node)

variable {α : Type} {guise : Guise}

namespace Guise.Renames

/-! ## Operators -/

theorem unaryValue (operator : Token) (operand : Value) :
    guise.Renames guise.Admits (Steps.unaryValue operator operand)
      (Steps.unaryValue (operator.reworded guise.words) operand) := by
  unfold Steps.unaryValue
  rw [Token.reworded_kind]
  split
  · cases operand <;> first | exact pure trivial | exact fail rfl _
  · exact pure trivial
  · exact pure trivial

theorem numbers (operator : Token) (left right : Value) :
    guise.Renames (fun _ => True) (Steps.numbers operator left right)
      (Steps.numbers (operator.reworded guise.words) left right) := by
  unfold Steps.numbers
  split
  · exact pure trivial
  · exact fail rfl _

theorem sum (operator : Token) (left right : Value) :
    guise.Renames guise.Admits (Steps.sum operator left right)
      (Steps.sum (operator.reworded guise.words) left right) := by
  unfold Steps.sum
  split
  · exact pure trivial
  · exact (textOf _).bind fun _ _ => (textOf _).bind fun _ _ => pure trivial
  · exact (textOf _).bind fun _ _ => (textOf _).bind fun _ _ => pure trivial
  · exact fail rfl _

theorem quotient (operator : Token) (left right : Value) :
    guise.Renames guise.Admits (Steps.quotient operator left right)
      (Steps.quotient (operator.reworded guise.words) left right) := by
  refine (numbers operator left right).bind fun pair _ => ?_
  dsimp only
  split
  · exact fail rfl _
  · exact pure trivial

theorem binaryValue (operator : Token) (left right : Value) :
    guise.Renames guise.Admits (Steps.binaryValue operator left right)
      (Steps.binaryValue (operator.reworded guise.words) left right) := by
  have ofNumbers (value : Float × Float → Value) (shown : ∀ pair, guise.Admits (value pair)) :
      guise.Renames guise.Admits
        (Steps.numbers operator left right >>= fun pair => (Pure.pure (value pair) : Run Value))
        (Steps.numbers (operator.reworded guise.words) left right >>= fun pair =>
          Pure.pure (value pair)) :=
    (numbers operator left right).bind fun pair _ => pure (shown pair)
  unfold Steps.binaryValue
  rw [Token.reworded_kind]
  split
  case h_3 => exact sum operator left right
  case h_6 => exact quotient operator left right
  case h_1 | h_2 | h_11 => exact pure trivial
  all_goals exact ofNumbers _ fun _ => trivial

theorem elementAt (bracket : Token) (target position : Value) :
    guise.Renames guise.Admits (Steps.elementAt bracket target position)
      (Steps.elementAt (bracket.reworded guise.words) target position) := by
  unfold Steps.elementAt
  cases target with
  | array id =>
      cases position with
      | number number =>
          refine (elementsOf id).bind fun items admitted => ?_
          dsimp only
          split
          next item _ found => exact pure (admitted item (Array.mem_of_getElem? found))
          · exact fail rfl _
      | _ => exact fail rfl _
  | _ => exact fail rfl _

/-! ## Built-in functions -/

section Builtins

variable {arguments : List Value}

theorem seekFiles (path : String) :
    guise.Renames (fun _ => True) (Builtin.seekFiles path) (Builtin.seekFiles path) :=
  ask (fun host => (host.files, host.wishing (.path path))) fun _ => trivial

theorem readText (path : String) :
    guise.Renames (fun _ => True) (Builtin.readText path) (Builtin.readText path) := by
  refine (seekFiles path).bind fun files _ => ?_
  cases files.read path <;> exact pure trivial

theorem readFile (path : Value) :
    guise.Renames guise.AdmitsAnswer (Builtin.readFile path) (Builtin.readFile path) := by
  unfold Builtin.readFile
  cases Builtin.pathOf path with
  | error reason => exact pure trivial
  | ok path =>
      refine (readText path).bind fun text _ => ?_
      cases text <;> exact pure trivial

theorem writeFile (path value : Value) :
    guise.Renames guise.AdmitsAnswer (Builtin.writeFile path value)
      (Builtin.writeFile path value) := by
  unfold Builtin.writeFile
  cases Builtin.pathOf path with
  | error reason => exact pure trivial
  | ok path =>
      refine (textOf value).bind fun text _ => (seekFiles path).bind fun files _ => ?_
      cases files.write path text with
      | error problem => exact pure trivial
      | ok changed =>
          have changing : guise.Renames (fun _ => True)
              (Run.ask fun host => (PUnit.unit, { host with files := changed }))
              (Run.ask fun host => (PUnit.unit, { host with files := changed })) :=
            ask _ fun _ => trivial
          exact changing.bind fun _ _ => pure trivial

theorem admits_headD (admitted : ∀ value ∈ arguments, guise.Admits value) :
    guise.Admits (arguments.headD .null) := by
  cases arguments with
  | nil => trivial
  | cons first rest => exact admitted first List.mem_cons_self

/-- A quiet built-in function gives the same answer. -/
theorem answer
    {action : Action}
    (runsNothing : action ≠ .runFile)
    (callsNothing : action ≠ .apply)
    (admitted : ∀ value ∈ arguments, guise.Admits value)
    (steps : Steps) :
    guise.Renames guise.AdmitsAnswer (Builtin.answer steps action arguments)
      (Builtin.answer steps action arguments) := by
  have first := admits_headD admitted
  have second : guise.Admits (arguments.tail.headD .null) :=
    admits_headD fun value member => admitted value (List.mem_of_mem_tail member)
  cases action with
  | runFile => exact absurd rfl runsNothing
  | apply => exact absurd rfl callsNothing
  | clock =>
      exact ask (fun host => (Except.ok (Value.number host.readClock.1), host.readClock.2))
        fun _ => trivial
  | «variable» =>
      change guise.Renames _ (Builtin.systemVariable (arguments.headD .null))
        (Builtin.systemVariable (arguments.headD .null))
      cases arguments.headD .null with
      | text name =>
          refine ask (fun host => (Except.ok (((host.valueOf? name).map Value.text).getD .null),
            host.wishing (.variable name))) fun host => ?_
          cases host.valueOf? name <;> trivial
      | _ => exact pure trivial
  | size =>
      change guise.Renames _ (Builtin.size (arguments.headD .null))
        (Builtin.size (arguments.headD .null))
      cases arguments.headD .null with
      | array id => exact (elementsOf id).bind fun _ _ => pure trivial
      | _ => exact pure trivial
  | trim =>
      refine pure ?_
      generalize arguments.headD .null = value at first
      cases value with
      | callable id => exact first
      | _ => trivial
  | split =>
      change guise.Renames _ (Builtin.split (arguments.headD .null) (arguments.tail.headD .null))
        (Builtin.split (arguments.headD .null) (arguments.tail.headD .null))
      unfold Builtin.split
      split
      · refine (newArray fun value member => ?_).bind fun _ shown => pure shown
        simp only [List.mem_toArray, List.mem_map] at member
        obtain ⟨part, -, rfl⟩ := member
        trivial
      · exact (newArray (by simp)).bind fun _ shown => pure shown
  | push =>
      change guise.Renames _ (Builtin.push (arguments.headD .null) (arguments.tail.headD .null))
        (Builtin.push (arguments.headD .null) (arguments.tail.headD .null))
      cases arguments.headD .null with
      | array id => exact (push id second).bind fun _ _ => pure trivial
      | _ => exact pure trivial
  | text => exact (textOf _).bind fun _ _ => pure trivial
  | typeName => exact pure trivial
  | readFile => exact readFile _
  | writeFile => exact writeFile _ _
  | refuse => exact (textOf _).bind fun _ _ => pure trivial

theorem perform
    {given : Builtin}
    (quiet : (Callable.builtin given).IsQuiet)
    (admitted : ∀ value ∈ arguments, guise.Admits value)
    (steps : Steps) :
    guise.Renames guise.Admits (Builtin.perform steps given arguments)
      (Builtin.perform steps given arguments) := by
  refine (answer quiet.1 quiet.2 admitted steps).bind fun outcome shown => ?_
  cases outcome with
  | ok value => exact pure shown
  | error reason => exact failing (Fault.ofCause (.refusal (given.name ++ "(): " ++ reason)) none)

end Builtins

/-! ## Statements -/

section Steps

variable {steps : Steps} {node : Node}

theorem declareFunction (suits : guise.Suits node) (kind : node.kind = .function) :
    guise.Renames guise.AdmitsFlow (Steps.declareFunction node)
      (Steps.declareFunction (node.reworded guise.words)) := by
  refine sight_bind (·.arena.parameterNames node)
    (·.arena.parameterNames (node.reworded guise.words)) fun machine _ => ?_
  refine get_bind fun current _ => ?_
  let declared : Function :=
    { name := node.name
      parameters := machine.arena.parameterNames node
      body := node.body
      closure := current.scope }
  have renamed : (Callable.function declared).reworded guise.words.spell =
      .function
        { name := (node.reworded guise.words).name
          parameters := (machine.arena.reworded guise.words).parameterNames
            (node.reworded guise.words)
          body := node.body
          closure := current.scope } := by
    have name : (node.reworded guise.words).name = node.name := suits.named kind
    rw [name, Tree.Arena.parameterNames_reworded]
    rfl
  have made : guise.Renames guise.Admits (Run.newCallable (.function declared))
      (Run.newCallable ((Callable.function declared).reworded guise.words.spell)) :=
    newCallable trivial
  rw [renamed] at made
  exact made.bind fun function shown => (define node.name shown).bind fun _ _ => pure trivial

variable (rename : guise.StepsRename steps)

include rename

theorem executeAll (ids : List (Option Tree.NodeId)) :
    guise.Renames guise.AdmitsFlow (steps.executeAll ids) (steps.executeAll ids) := by
  induction ids with
  | nil => exact pure trivial
  | cons id others inductionHypothesis =>
      refine (rename.execute id).bind fun flow shown => ?_
      cases flow with
      | returning value => exact pure shown
      | normal => exact inductionHypothesis

theorem executeBlock
    (outer : Scope)
    {bindings : List (String × Value)}
    (admitted : ∀ binding ∈ bindings, guise.Admits binding.2)
    (node : Node) :
    guise.Renames guise.AdmitsFlow (steps.executeBlock outer bindings node)
      (steps.executeBlock outer (Bindings.reworded guise.words.spell bindings)
        (node.reworded guise.words)) :=
  (newScope outer admitted).bind fun scope _ => (executeAll rename node.children).inScope scope

theorem executeLoop (node : Node) (rounds : Nat) :
    guise.Renames guise.AdmitsFlow (steps.executeLoop node rounds)
      (steps.executeLoop (node.reworded guise.words) rounds) := by
  induction rounds with
  | zero => exact exhausted
  | succ rounds inductionHypothesis =>
      refine (rename.evaluate _).bind fun condition _ => ?_
      split
      · refine (rename.execute _).bind fun flow shown => ?_
        cases flow with
        | returning value => exact pure shown
        | normal => exact inductionHypothesis
      · exact pure trivial

theorem giveBack (node : Node) :
    guise.Renames guise.AdmitsFlow (steps.giveBack node)
      (steps.giveBack (node.reworded guise.words)) := by
  refine get_bind fun machine _ => ?_
  change guise.Renames _ (if machine.depth = machine.base then _ else _)
    (if machine.depth = machine.base then _ else _)
  split
  · exact fail rfl _
  · exact (rename.evaluate _).bind fun value shown => pure shown

theorem executeNode (id : Option Tree.NodeId) :
    guise.Renames guise.AdmitsFlow (steps.executeNode id) (steps.executeNode id) := by
  refine node?_bind id (pure trivial) fun node suits => ?_
  have kind : (node.reworded guise.words).kind = node.kind := rfl
  dsimp only
  rw [kind]
  cases kind : node.kind with
  | statements => exact executeAll rename _
  | declaration =>
      exact (rename.evaluate _).bind fun value shown =>
        (define node.name shown).bind fun _ _ => pure trivial
  | echo =>
      exact (rename.evaluate _).bind fun value _ => (textOf value).bind fun text _ =>
        (write _ _).bind fun _ _ => pure trivial
  | discard => exact (rename.evaluate _).bind fun _ _ => pure trivial
  | block => exact get_bind fun machine _ =>
      executeBlock rename machine.scope (List.forall_mem_nil _) node
  | branch =>
      refine (rename.evaluate _).bind fun condition _ => ?_
      split <;> exact rename.execute _
  | loop => exact executeLoop rename node steps.rounds
  | function => exact declareFunction suits kind
  | giveBack => exact giveBack rename node
  | _ => exact (rename.evaluate id).bind fun _ _ => pure trivial

/-! ## Calls -/

theorem callFunction
    (declared : Function)
    {arguments : List Value}
    (admitted : ∀ value ∈ arguments, guise.Admits value) :
    guise.Renames guise.Admits (steps.callFunction declared arguments)
      (steps.callFunction
        { declared with parameters := declared.parameters.map guise.words.spell } arguments) := by
  refine node?_bind declared.body (pure trivial) fun body _ => ?_
  have bound : (declared.parameters.map guise.words.spell).zip arguments =
      Bindings.reworded guise.words.spell (declared.parameters.zip arguments) := by
    rw [Bindings.reworded, List.zip_map_left]
    rfl
  dsimp only
  rw [bound]
  refine (executeBlock rename declared.closure (fun binding member => ?_) body).bind
    fun flow shown => ?_
  · exact admitted _ (List.of_mem_zip member).2
  · cases flow with
    | returning value => exact pure shown
    | normal => exact pure trivial

theorem callCallable
    {callable : Callable}
    (quiet : callable.IsQuiet)
    {arguments : List Value}
    (admitted : ∀ value ∈ arguments, guise.Admits value) :
    guise.Renames guise.Admits (steps.callCallable callable arguments)
      (steps.callCallable (callable.reworded guise.words.spell) arguments) := by
  cases callable with
  | function declared => exact callFunction rename declared admitted
  | builtin given => exact perform quiet admitted steps

theorem callFound
    {found : Option Callable}
    (quiet : ∀ callable ∈ found, callable.IsQuiet)
    (paren : Token)
    {arguments : Array Value}
    (admitted : ∀ value ∈ arguments, guise.Admits value) :
    guise.Renames guise.Admits (steps.callFound paren arguments found)
      (steps.callFound (paren.reworded guise.words) arguments
        (found.map (Callable.reworded guise.words.spell))) := by
  cases found with
  | none => exact fail rfl _
  | some callable =>
      have called : guise.Renames guise.Admits (steps.call callable arguments.toList)
          (steps.call (callable.reworded guise.words.spell) arguments.toList) :=
        rename.call (quiet callable rfl) fun value member => admitted value (by simpa using member)
      simp only [Steps.callFound, Option.map_some, Callable.reworded_arity]
      split
      · exact fail rfl _
      · refine get_bind fun machine _ => ?_
        change guise.Renames _ (if machine.limit ≤ machine.depth then _ else _)
          (if machine.limit ≤ machine.depth then _ else _)
        split
        · exact fail rfl _
        · exact called.inCall paren

/-- What may be seen may be called. -/
theorem callValue
    (paren : Token)
    {target : Value}
    (shown : guise.Admits target)
    {arguments : Array Value}
    (admitted : ∀ value ∈ arguments, guise.Admits value) :
    guise.Renames guise.Admits (steps.callValue paren target arguments)
      (steps.callValue (paren.reworded guise.words) target arguments) := by
  rw [Steps.callValue_eq, Steps.callValue_eq]
  cases target with
  | callable id =>
      refine sight_bind (·.store.callable? id) (·.store.callable? id) fun machine fits => ?_
      change guise.Renames _ _ (steps.callFound _ _ ((machine.store.reworded _).callable? id))
      rw [Store.callable?_reworded]
      exact callFound rename (fun callable found => fits.store.quiet found shown) paren admitted
  | _ => exact callFound rename (by simp) paren admitted

/-! ## Evaluation -/

theorem evaluateAll
    (ids : List (Option Tree.NodeId))
    {values : Array Value}
    (admitted : ∀ value ∈ values, guise.Admits value) :
    guise.Renames (fun values => ∀ value ∈ values, guise.Admits value)
      (steps.evaluateAll ids values) (steps.evaluateAll ids values) := by
  induction ids generalizing values with
  | nil => exact pure admitted
  | cons id others inductionHypothesis =>
      refine (rename.evaluate id).bind fun value shown => inductionHypothesis ?_
      intro other member
      obtain old | rfl := Array.mem_push.mp member
      · exact admitted other old
      · exact shown

theorem logical (node : Node) :
    guise.Renames guise.Admits (steps.logical node)
      (steps.logical (node.reworded guise.words)) := by
  refine (rename.evaluate _).bind fun left shown => ?_
  have kind : (node.reworded guise.words).token.kind = node.token.kind := rfl
  rw [kind]
  split
  all_goals
    dsimp only
    split
    · exact pure shown
    · exact rename.evaluate _

omit rename in
/-- No function is a constant. -/
theorem admits_ofConstant? (constant : Option Tree.Constant) :
    guise.Admits (Value.ofConstant? constant) := by
  cases constant with
  | none => trivial
  | some value => cases value <;> trivial

theorem evaluateNode (id : Option Tree.NodeId) :
    guise.Renames guise.Admits (steps.evaluateNode id) (steps.evaluateNode id) := by
  refine node?_bind id (pure trivial) fun node suits => ?_
  have kind : (node.reworded guise.words).kind = node.kind := rfl
  dsimp only
  rw [kind]
  cases node.kind with
  | constant => exact pure (admits_ofConstant? node.constant)
  | group => exact rename.evaluate _
  | «variable» => exact valueOf suits.unsaid
  | assignment =>
      exact (rename.evaluate _).bind fun value shown =>
        (assign node.token shown).bind fun _ _ => pure shown
  | logical => exact logical rename node
  | unary => exact (rename.evaluate _).bind fun value _ => unaryValue _ value
  | binary =>
      exact (rename.evaluate _).bind fun left _ => (rename.evaluate _).bind fun right _ =>
        binaryValue _ left right
  | call =>
      exact (rename.evaluate _).bind fun target shown =>
        (evaluateAll rename _ (by simp)).bind fun arguments admitted =>
          callValue rename _ shown admitted
  | array => exact (evaluateAll rename _ (by simp)).bind fun items admitted => newArray admitted
  | index =>
      exact (rename.evaluate _).bind fun target _ => (rename.evaluate _).bind fun position _ =>
        elementAt _ target position
  | parameter => exact pure trivial
  | _ => exact (rename.execute id).bind fun _ _ => pure trivial

/-! ## Programs -/

/-- A program that is executed in other names writes the same. -/
theorem interpretWith (root : Tree.NodeId) :
    guise.Renames (fun _ => True) (Run.interpretWith steps root)
      (Run.interpretWith steps root) := by
  intro machine fits
  obtain ⟨same, leaves⟩ := rename.execute (some root)
    { machine with scope := Scope.global, base := machine.depth } ⟨fits.node, fits.store⟩
  have entered : ({ machine.reworded guise.words with
        scope := Scope.global, base := (machine.reworded guise.words).depth } : Machine) =
      Machine.reworded guise.words
        { machine with scope := Scope.global, base := machine.depth } := rfl
  rw [Run.interpretWith_eq, Run.interpretWith_eq, entered, same]
  cases ends : steps.execute (some root)
      { machine with scope := Scope.global, base := machine.depth } with
  | ok flow later =>
      rw [ends] at leaves
      exact flush { later with scope := machine.scope, base := machine.base }
        ⟨leaves.1.node, leaves.1.store⟩
  | error interrupt later =>
      rw [ends] at leaves
      exact ⟨rfl, leaves.node, leaves.store⟩

end Steps
end Guise.Renames

/-- Within any bound, what is done in other names is the same. -/
theorem Guise.StepsRename.within (guise : Guise) (bound : Nat) :
    guise.StepsRename (Run.within bound) := by
  induction bound with
  | zero => exact ⟨fun _ => .exhausted, fun _ => .exhausted, fun _ _ => .exhausted⟩
  | succ bound inductionHypothesis =>
      rw [Run.within_succ]
      exact ⟨Renames.evaluateNode inductionHypothesis, Renames.executeNode inductionHypothesis,
        fun quiet admitted => Renames.callCallable inductionHypothesis quiet admitted⟩

end Scripting
