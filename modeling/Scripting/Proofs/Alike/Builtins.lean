import Scripting.Proofs.Alike.Machines
import Scripting.Builtin

/-!
# Built-in functions on alike machines

A built-in function agrees with itself when the steps do by which it goes on.  What
it answers is the same on alike machines, except that the reason for a failure may
quote a fault, and then it quotes an alike one.

Main statement: `agrees_perform`.
-/

namespace Scripting

open Tree (Arenas Exchange TokensAlike)

variable {exchange : Exchange} {arenas later : Arenas} {α β γ δ : Type} {steps : Steps}

/-- The steps agree with themselves from alike indices and for alike functions. -/
structure Steps.Agree (exchange : Exchange) (steps : Steps) : Prop where
  evaluate {arenas : Arenas} {id other : Option Tree.NodeId} :
    Tree.Alike exchange arenas id other →
      Agrees exchange arenas Same (steps.evaluate id) (steps.evaluate other)
  execute {arenas : Arenas} {id other : Option Tree.NodeId} :
    Tree.Alike exchange arenas id other →
      Agrees exchange arenas Same (steps.execute id) (steps.execute other)
  call {arenas : Arenas} {callable twin : Callable} (arguments : List Value) :
    callable.Alike exchange arenas twin →
      Agrees exchange arenas Same (steps.call callable arguments) (steps.call twin arguments)

/-! ## Programs -/

theorem agrees_interpretWith
    (agree : steps.Agree exchange)
    {root other : Tree.NodeId}
    (alike : Tree.Alike exchange arenas (some root) (some other)) :
    Agrees exchange arenas Same (Run.interpretWith steps root) (Run.interpretWith steps other) :=
  (agrees_atTopLevel (agree.execute alike)).bind_same fun _ _ => agrees_flush

/-- The faults of a source are the same, or the one that ended its run is alike. -/
inductive FaultsAlike (exchange : Exchange) (arenas : Arenas) : List Fault → List Fault → Prop
  | same (faults : List Fault) : FaultsAlike exchange arenas faults faults
  | one {fault twin : Fault} :
      fault.Alike exchange arenas twin → FaultsAlike exchange arenas [fault] [twin]

theorem agrees_sourceWith
    (agree : steps.Agree exchange)
    (source : String) :
    Agrees exchange arenas (FaultsAlike exchange) (Run.sourceWith steps source)
      (Run.sourceWith steps source) := by
  refine (agrees_readSource source).bind fun {later found other} before values => ?_
  obtain ⟨root, faults⟩ := found
  obtain ⟨otherRoot, otherFaults⟩ := other
  obtain ⟨rfl, roots⟩ := values
  simp only
  cases empty : otherFaults.isEmpty with
  | false => exact .pure fun _ => .same _
  | true =>
      have alike := roots (List.isEmpty_iff.mp empty)
      refine (agrees_attempt (agrees_interpretWith agree alike)).bind fun _ attempts => ?_
      cases attempts with
      | ok _ => exact .pure fun _ => .same []
      | error faults => exact .pure fun after => .one ((faults.withSource source).mono after)

/-! ## Answers -/

/-- Answers that are the same, or reasons that quote alike faults. -/
inductive AnswerAlike (exchange : Exchange) (arenas : Arenas) :
    Builtin.Answer → Builtin.Answer → Prop
  | same (answer : Builtin.Answer) : AnswerAlike exchange arenas answer answer
  | quoting (before : String) {fault twin : Fault} :
      fault.Alike exchange arenas twin →
      AnswerAlike exchange arenas (.error (before ++ fault.text)) (.error (before ++ twin.text))

/-- An answer that is the same is alike. -/
theorem Agrees.answer
    {work other : Run Builtin.Answer}
    (agrees : Agrees exchange arenas Same work other) :
    Agrees exchange arenas (AnswerAlike exchange) work other := by
  intro machine twin alike before
  have ends := agrees machine twin alike before
  generalize work machine = left at ends ⊢
  generalize other twin = right at ends ⊢
  cases ends with
  | ok between after values => exact .ok between after (values ▸ .same _)
  | fault between after faults => exact .fault between after faults
  | exhausted between after => exact .exhausted between after

/-- Returning a value agrees with returning the same one. -/
theorem Agrees.pure_same (value : α) :
    Agrees exchange arenas Same (Pure.pure value) (Pure.pure value) :=
  .pure fun _ => rfl

namespace Builtin

theorem agrees_clock : Agrees exchange arenas Same clock clock :=
  agrees_of_commutes (fun machine => .ok (.number machine.host.readClock.1))
    (fun machine => { machine with host := machine.host.readClock.2 })
    (fun _ => rfl) (fun _ => ⟨rfl, rfl⟩) fun _ _ _ => ⟨rfl, rfl⟩

theorem agrees_systemVariable (name : Value) :
    Agrees exchange arenas Same (systemVariable name) (systemVariable name) := by
  cases name with
  | text name =>
      exact agrees_of_commutes
        (fun machine => .ok (((machine.host.valueOf? name).map Value.text).getD .null))
        (fun machine => { machine with host := machine.host.wishing (.variable name) })
        (fun _ => rfl) (fun _ => ⟨rfl, rfl⟩) fun _ _ _ => ⟨rfl, rfl⟩
  | _ => exact Agrees.pure_same _

theorem agrees_size (value : Value) : Agrees exchange arenas Same (size value) (size value) := by
  cases value with
  | array id => exact (agrees_elementsOf id).bind_same fun _ _ => .pure_same _
  | _ => exact .pure_same _

theorem agrees_split (text separator : Value) :
    Agrees exchange arenas Same (split text separator) (split text separator) := by
  unfold split
  split
  · exact (agrees_newArray _).bind_same fun _ _ => .pure_same _
  · exact (agrees_newArray _).bind_same fun _ _ => .pure_same _

theorem agrees_push (target value : Value) :
    Agrees exchange arenas Same (push target value) (push target value) := by
  cases target with
  | array id => exact (agrees_pushElement id value).bind_same fun _ _ => .pure_same _
  | _ => exact .pure_same _

theorem agrees_seekFiles (path : String) :
    Agrees exchange arenas Same (seekFiles path) (seekFiles path) :=
  agrees_of_commutes (fun machine => machine.host.files)
    (fun machine => { machine with host := machine.host.wishing (.path path) })
    (fun _ => rfl) (fun _ => ⟨rfl, rfl⟩) fun _ _ _ => ⟨rfl, rfl⟩

theorem agrees_readText (path : String) :
    Agrees exchange arenas Same (readText path) (readText path) := by
  refine (agrees_seekFiles path).bind_same fun files _ => ?_
  cases files.read path with
  | ok text => exact .pure_same _
  | error problem => exact .pure_same _

theorem agrees_readFile (path : Value) :
    Agrees exchange arenas Same (readFile path) (readFile path) := by
  unfold readFile
  cases pathOf path with
  | error reason => exact .pure_same _
  | ok path => exact (agrees_readText path).bind_same fun _ _ => .pure_same _

theorem agrees_writeFile (path value : Value) :
    Agrees exchange arenas Same (writeFile path value) (writeFile path value) := by
  unfold writeFile
  cases pathOf path with
  | error reason => exact .pure_same _
  | ok path =>
      refine (agrees_textOf value).bind_same fun text _ =>
        (agrees_seekFiles path).bind_same fun files _ => ?_
      cases files.write path text with
      | error problem => exact .pure_same _
      | ok changed =>
          refine Agrees.bind_same ?_ fun _ _ => .pure_same _
          exact agrees_of_commutes (fun _ => ())
            (fun machine => { machine with host := { machine.host with files := changed } })
            (fun _ => rfl) (fun _ => ⟨rfl, rfl⟩) fun _ _ _ => ⟨rfl, rfl⟩

theorem agrees_firstFile? (paths : List String) :
    Agrees exchange arenas Same (firstFile? paths) (firstFile? paths) := by
  induction paths generalizing arenas with
  | nil => exact .pure_same _
  | cons path others inductionHypothesis =>
      refine (agrees_seekFiles path).bind_same fun files _ => ?_
      split
      · exact .pure_same _
      · exact inductionHypothesis

theorem agrees_programPath? (path : String) :
    Agrees exchange arenas Same (programPath? path) (programPath? path) := by
  refine agrees_get.bind fun _ alike => ?_
  rw [alike.field_eq Machine.libraries fun _ _ _ => rfl]
  split
  · exact agrees_firstFile? _
  · exact agrees_firstFile? _

theorem agrees_runFile
    (agree : steps.Agree exchange)
    (path : Value) :
    Agrees exchange arenas (AnswerAlike exchange) (runFile steps path) (runFile steps path) := by
  unfold runFile
  cases pathOf path with
  | error reason => exact (Agrees.pure_same _).answer
  | ok path =>
      refine (agrees_programPath? path).bind_same fun found _ => ?_
      cases found with
      | none => exact (Agrees.pure_same _).answer
      | some found =>
          refine (agrees_readText found).bind_same fun text _ => ?_
          cases text with
          | error reason => exact (Agrees.pure_same _).answer
          | ok source =>
              refine (agrees_sourceWith agree source).bind fun _ faults => ?_
              cases faults with
              | same faults =>
                  split
                  · exact (Agrees.pure_same _).answer
                  · exact (Agrees.pure_same _).answer
              | @one fault twin alike =>
                  refine .pure fun after => ?_
                  have quoted := AnswerAlike.quoting ("in '" ++ found ++ "':\n") (alike.mono after)
                  exact quoted

theorem agrees_apply
    (agree : steps.Agree exchange)
    (target items : Value) :
    Agrees exchange arenas (AnswerAlike exchange) (apply steps target items)
      (apply steps target items) := by
  unfold apply
  split
  next id items =>
      refine (agrees_callableAt? id).bind fun _ callables => ?_
      cases callables with
      | none => exact (Agrees.pure_same _).answer
      | some callables =>
          refine (agrees_elementsOf items).bind_same fun arguments after => ?_
          refine (agrees_attempt (agree.call arguments.toList (callables.mono after))).bind
            fun _ attempts => ?_
          cases attempts with
          | ok values => exact values ▸ (Agrees.pure_same _).answer
          | @error fault twin alike =>
              refine .pure fun after => ?_
              have quoted := AnswerAlike.quoting "" (alike.mono after)
              simpa using quoted
  next => exact (Agrees.pure_same _).answer

theorem agrees_answer
    (agree : steps.Agree exchange)
    (action : Action)
    (arguments : List Value) :
    Agrees exchange arenas (AnswerAlike exchange) (answer steps action arguments)
      (answer steps action arguments) := by
  unfold answer
  cases action with
  | clock => exact agrees_clock.answer
  | «variable» => exact (agrees_systemVariable _).answer
  | size => exact (agrees_size _).answer
  | trim => exact (Agrees.pure_same _).answer
  | split => exact (agrees_split _ _).answer
  | push => exact (agrees_push _ _).answer
  | text => exact ((agrees_textOf _).bind_same fun _ _ => .pure_same _).answer
  | typeName => exact (Agrees.pure_same _).answer
  | readFile => exact (agrees_readFile _).answer
  | writeFile => exact (agrees_writeFile _ _).answer
  | runFile => exact agrees_runFile agree _
  | refuse => exact ((agrees_textOf _).bind_same fun _ _ => .pure_same _).answer
  | apply => exact agrees_apply agree _ _

/-- Calling a built-in function agrees with itself. -/
theorem agrees_perform
    (agree : steps.Agree exchange)
    (builtin : Builtin)
    (arguments : List Value) :
    Agrees exchange arenas Same (perform steps builtin arguments)
      (perform steps builtin arguments) := by
  refine (agrees_answer agree builtin.action arguments).bind
    fun {later given other} before answers => ?_
  cases answers with
  | same =>
      cases given with
      | ok value => exact .pure_same _
      | error reason =>
          exact fun _ _ alike _ => .fault alike (Arenas.le_refl _) (.unplaced (.same _))
  | quoting text alike =>
      intro _ _ machines after
      have quoted := Cause.Alike.quoting (builtin.name ++ "(): " ++ text) (alike.mono after)
      simp only [String.append_assoc] at quoted ⊢
      exact .fault machines (Arenas.le_refl _) (.unplaced quoted)

end Builtin
end Scripting
